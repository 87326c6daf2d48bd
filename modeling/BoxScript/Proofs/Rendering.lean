import BoxScript.Proofs.Isolation
import BoxScript.Proofs.Related
import Mathlib.Logic.Relation

/-!
# Instances in circles

The text of a value has parts: the text of an array those of its items, and the text of an instance
those of its slots. Instances can hold each other in circles, so the parts of the parts need not
come to an end, and somewhere an instance has to be cut off. A tree of parts that does come to an
end is a `Rendering`.

The text that a value gets is that of a rendering, so it is finite whatever the heap looks like, and
the rendering is the only one in which those instances are cut off that lie inside of themselves,
and no others. Where no instance is inside of itself that is the plain rendering, in which nothing
is cut off. An instance that is met several times side by side is written out each time.
-/

namespace BoxScript

/-! ## Renderings -/

/-- A text by its parts. A leaf is a number, a string in quotes, the text for no value, or a function
of an instance. -/
inductive Rendering where
  | leaf (text : String)
  | field (name : String) (value : Rendering)
  | array (items : List Rendering)
  | whole (h : Handle) (slots : List Rendering)
  | cut (h : Handle)
  deriving Inhabited

namespace Rendering

/-- The text that has these parts. -/
def text (instances : Pool Instance) : Rendering → String
  | leaf text => text
  | field name value => name ++ ": " ++ value.text instances
  | array items => "[" ++ ", ".intercalate (items.map (text instances)) ++ "]"
  | whole _ slots => "\x7b" ++ ", ".intercalate (slots.map (text instances)) ++ "\x7d"
  | cut h => "\x7b" ++ (instances.get h).box ++ " ...\x7d"

/-- A part occurs in a rendering, inside of the instances `outer`, the innermost first. -/
inductive Occurs (part : Rendering) : List Handle → Rendering → Prop
  | here : Occurs part [] part
  | field {outer : List Handle} {name : String} {value : Rendering} (h : Occurs part outer value) :
      Occurs part outer (.field name value)
  | item {outer : List Handle} {items : List Rendering} {item : Rendering} (hitem : item ∈ items)
      (h : Occurs part outer item) : Occurs part outer (.array items)
  | slot {outer : List Handle} {o : Handle} {slots : List Rendering} {slot : Rendering}
      (hslot : slot ∈ slots) (h : Occurs part outer slot) :
      Occurs part (outer ++ [o]) (.whole o slots)

/-- An instance inside of the instances `outer` is cut off if a rule says so, and is written out
otherwise. -/
structure CutWhere (rule : List Handle → Handle → Prop) (r : Rendering) : Prop where
  cut : ∀ outer h, Occurs (.cut h) outer r → rule outer h
  whole : ∀ outer h slots, Occurs (.whole h slots) outer r → ¬rule outer h

end Rendering

mutual

/-- The rendering shows the value. Any instance in it may be cut off. -/
inductive Renders (instances : Pool Instance) : Value → Rendering → Prop
  | int (n : Int64) : Renders instances (.int n) (.leaf (Text.showInt n))
  | str (s : String) : Renders instances (.str s) (.leaf ("\"" ++ s ++ "\""))
  | void : Renders instances .void (.leaf "(void)")
  | array {items : List Value} {parts : List Rendering}
      (hitems : List.Forall₂ (Renders instances) items parts) :
      Renders instances (.array items) (.array parts)
  | whole {h : Handle} {parts : List Rendering}
      (hslots : List.Forall₂ (RendersSlot instances) (instances.get h).slots parts) :
      Renders instances (.object h) (.whole h parts)
  | cut (h : Handle) : Renders instances (.object h) (.cut h)

/-- The rendering shows the slot. -/
inductive RendersSlot (instances : Pool Instance) : Slot → Rendering → Prop
  | field {name : String} {v : Value} {access : Access} {part : Rendering}
      (h : Renders instances v part) : RendersSlot instances (.field name v access) (.field name part)
  | function (r : Routine) (access : Access) (locals : Locals) :
      RendersSlot instances (.function r access locals)
        (.leaf (r.name ++ " <- (" ++ ", ".intercalate r.params ++ ")"))

end

/-! ## Where instances are cut off -/

namespace Rendering

variable {rule : List Handle → Handle → Prop} {name : String} {value : Rendering}
  {parts : List Rendering} {o : Handle}

theorem cutWhere_leaf (text : String) : (leaf text).CutWhere rule := ⟨nofun, nofun⟩

/-- An instance that is cut off is asked about with nothing around it. -/
theorem cutWhere_cut_iff : (cut o).CutWhere rule ↔ rule [] o := by
  refine ⟨fun h => h.cut [] o .here, fun h => ⟨fun outer k hk => ?_, nofun⟩⟩
  cases hk with
  | here => exact h

theorem cutWhere_field_iff : (field name value).CutWhere rule ↔ value.CutWhere rule := by
  refine ⟨fun h => ⟨fun outer k hk => h.cut outer k (.field hk),
    fun outer k slots hk => h.whole outer k slots (.field hk)⟩,
    fun h => ⟨fun outer k hk => ?_, fun outer k slots hk => ?_⟩⟩
  · cases hk with
    | field hk => exact h.cut outer k hk
  · cases hk with
    | field hk => exact h.whole outer k slots hk

theorem cutWhere_array_iff : (array parts).CutWhere rule ↔ ∀ p ∈ parts, p.CutWhere rule := by
  refine ⟨fun h p hp => ⟨fun outer k hk => h.cut outer k (.item hp hk),
    fun outer k slots hk => h.whole outer k slots (.item hp hk)⟩,
    fun h => ⟨fun outer k hk => ?_, fun outer k slots hk => ?_⟩⟩
  · cases hk with
    | item hp hk => exact (h _ hp).cut outer k hk
  · cases hk with
    | item hp hk => exact (h _ hp).whole outer k slots hk

/-- Inside of an instance the rule is asked with that instance behind the others. -/
theorem cutWhere_whole_iff :
    (whole o parts).CutWhere rule ↔
      ¬rule [] o ∧ ∀ p ∈ parts, p.CutWhere fun outer => rule (outer ++ [o]) := by
  refine ⟨fun h => ⟨h.whole [] o parts .here, fun p hp => ⟨fun outer k hk => ?_,
    fun outer k slots hk => ?_⟩⟩,
    fun ⟨hrule, hparts⟩ => ⟨fun outer k hk => ?_, fun outer k slots hk => ?_⟩⟩
  · exact h.cut (outer ++ [o]) k (.slot hp hk)
  · exact h.whole (outer ++ [o]) k slots (.slot hp hk)
  · cases hk with
    | slot hp hk => exact (hparts _ hp).cut _ k hk
  · cases hk with
    | here => exact hrule
    | slot hp hk => exact (hparts _ hp).whole _ k slots hk

end Rendering

/-! ## One rendering for one rule -/

section Unique

variable {instances : Pool Instance}

mutual

/-- A rule leaves one way to show a value. -/
theorem Renders.unique {v : Value} {r r' : Rendering} {rule : List Handle → Handle → Prop}
    (h : Renders instances v r) (h' : Renders instances v r') (hr : r.CutWhere rule)
    (hr' : r'.CutWhere rule) : r' = r := by
  -- leaves and arrays are the same by their items, and the rule decides between an instance that is
  -- written out and one that is cut off
  cases h with
  | int | str | void =>
    cases h'
    rfl
  | @array _ parts hitems =>
    cases h' with
    | array hitems' =>
      rw [Rendering.cutWhere_array_iff] at hr hr'
      exact congrArg Rendering.array (eq_of_related hitems hitems' fun v p hp p' hp' hvp hvp' =>
        hvp.unique hvp' (hr p hp) (hr' p' hp'))
  | @whole o parts hslots =>
    cases h' with
    | whole hslots' =>
      rw [Rendering.cutWhere_whole_iff] at hr hr'
      exact congrArg (Rendering.whole o) (eq_of_related hslots hslots' fun s p hp p' hp' hsp hsp' =>
        hsp.unique hsp' (hr.2 p hp) (hr'.2 p' hp'))
    | cut =>
      exact absurd (Rendering.cutWhere_cut_iff.1 hr') (Rendering.cutWhere_whole_iff.1 hr).1
  | cut o =>
    cases h' with
    | whole =>
      exact absurd (Rendering.cutWhere_cut_iff.1 hr) (Rendering.cutWhere_whole_iff.1 hr').1
    | cut => rfl
termination_by sizeOf r

theorem RendersSlot.unique {s : Slot} {r r' : Rendering} {rule : List Handle → Handle → Prop}
    (h : RendersSlot instances s r) (h' : RendersSlot instances s r') (hr : r.CutWhere rule)
    (hr' : r'.CutWhere rule) : r' = r := by
  cases h with
  | field hv =>
    cases h' with
    | field hv' =>
      rw [Rendering.cutWhere_field_iff] at hr hr'
      rw [hv.unique hv' hr hr']
  | function =>
    cases h'
    rfl
termination_by sizeOf r

end

end Unique

/-! ## The text of a value -/

/-- A slot as text, inside the text of the instances that are open. -/
def Slot.printableIn (instances : Pool Instance) (opened : List Handle) : Slot → String
  | .field name value _ => name ++ ": " ++ value.printableIn instances opened
  | .function routine _ _ => routine.name ++ " <- (" ++ ", ".intercalate routine.params ++ ")"

/-- The slots are gone through from the front, and their texts collected from the back. -/
theorem printableSlots_eq (instances : Pool Instance) (opened : List Handle)
    (written : List String) (slots : List Slot) :
    printableSlots instances opened written slots
      = written.reverse ++ slots.map (·.printableIn instances opened) := by
  induction slots generalizing written with
  | nil => rw [printableSlots, List.map_nil, List.append_nil]
  | cons slot slots ih =>
    cases slot <;> rw [printableSlots, ih, List.reverse_cons, List.append_assoc] <;> rfl

/-- A handle that no instance has is read as an instance without slots. -/
theorem lt_size_of_mem_slots {instances : Pool Instance} {o : Handle} {slot : Slot}
    (h : slot ∈ (instances.get o).slots) : o.index < instances.size := by
  by_contra hlt
  simp only [Pool.size] at hlt
  rw [Pool.get, Array.getElem?_eq_none (Nat.le_of_not_lt hlt)] at h
  exact absurd h List.not_mem_nil

/-- An instance that is not open is written out, with itself open inside of it. -/
theorem printableIn_object {instances : Pool Instance} {opened : List Handle} {o : Handle}
    (h : o ∉ opened) : (Value.object o).printableIn instances opened = "\x7b" ++
      ", ".intercalate ((instances.get o).slots.map (·.printableIn instances (o :: opened)))
        ++ "\x7d" := by
  rw [Value.printableIn, if_neg (by simpa using h)]
  split
  case isTrue => rw [printableSlots_eq, List.reverse_nil, List.nil_append]
  case isFalse hlt =>
    have hnone : (instances.get o).slots = [] :=
      List.eq_nil_iff_forall_not_mem.2 fun slot hslot => hlt (lt_size_of_mem_slots hslot)
    rw [hnone]
    rfl

/-- A value has the text of a rendering in which the instances are cut off that are open or lie
inside of themselves. -/
theorem exists_rendering (instances : Pool Instance) (opened : List Handle) (v : Value) :
    ∃ r, Renders instances v r ∧ r.CutWhere (fun outer h => h ∈ outer ++ opened) ∧
      r.text instances = v.printableIn instances opened := by
  -- by the recursion of the text, with the rendering built beside it
  cases v with
  | int n => exact ⟨_, .int n, Rendering.cutWhere_leaf _, by rw [Rendering.text, Value.printableIn]⟩
  | str s => exact ⟨_, .str s, Rendering.cutWhere_leaf _, by rw [Rendering.text, Value.printableIn]⟩
  | void => exact ⟨_, .void, Rendering.cutWhere_leaf _, by rw [Rendering.text, Value.printableIn]⟩
  | array items =>
    obtain ⟨parts, hshows, hcut, htexts⟩ :=
      exists_related fun item (hitem : item ∈ items) => exists_rendering instances opened item
    refine ⟨.array parts, .array hshows, Rendering.cutWhere_array_iff.2 hcut, ?_⟩
    rw [Rendering.text, Value.printableIn, printableItems_eq, htexts]
    rfl
  | object o =>
    by_cases hopened : o ∈ opened
    · refine ⟨.cut o, .cut o, Rendering.cutWhere_cut_iff.2 hopened, ?_⟩
      rw [Rendering.text, Value.printableIn, if_pos (by simpa using hopened)]
    have hslots : ∀ slot ∈ (instances.get o).slots, ∃ part, RendersSlot instances slot part ∧
        part.CutWhere (fun outer h => h ∈ (outer ++ [o]) ++ opened) ∧
        part.text instances = slot.printableIn instances (o :: opened) := by
      intro slot hslot
      have hlt := lt_size_of_mem_slots hslot
      cases slot with
      | field name value access =>
        obtain ⟨part, hshows, hcut, htext⟩ := exists_rendering instances (o :: opened) value
        refine ⟨.field name part, .field hshows, Rendering.cutWhere_field_iff.2 ?_, ?_⟩
        -- an instance is open inside if it was open before or is the one that is written out
        · simpa only [List.append_assoc, List.singleton_append] using hcut
        · rw [Rendering.text, htext]
          rfl
      | function routine access locals =>
        refine ⟨_, .function routine access locals, Rendering.cutWhere_leaf _, ?_⟩
        rw [Rendering.text]
        rfl
    obtain ⟨parts, hshows, hcut, htexts⟩ := exists_related hslots
    refine ⟨.whole o parts, .whole hshows,
      Rendering.cutWhere_whole_iff.2 ⟨hopened, hcut⟩, ?_⟩
    rw [Rendering.text, printableIn_object hopened, htexts]
-- inside of an instance fewer of them are closed, and inside of an array the value is smaller
termination_by (closedCount instances.size opened, sizeOf v)
decreasing_by
  · exact Prod.Lex.right _ (by have := List.sizeOf_lt_of_mem hitem; simp; omega)
  · exact Prod.Lex.left _ _ (closedCount_cons_lt hlt (by simpa using hopened))

/-! ## Circles -/

namespace Machine

variable {m : Machine} {v : Value} {outer : List Handle} {o : Handle}

/-- The instance can be reached from a value, and from each of the instances `outer` by at least
one step. -/
structure LeadsTo (m : Machine) (v : Value) (outer : List Handle) (o : Handle) : Prop where
  value : ∃ k, v.Holds k ∧ Relation.ReflTransGen m.Refers k o
  outer : ∀ k ∈ outer, Relation.TransGen m.Refers k o

/-- What is cut off in a rendering can be reached from the value, and from the instances around. -/
theorem leadsTo_of_occurs {r : Rendering} (h : Rendering.Occurs (.cut o) outer r) :
    (∀ v, Renders m.heap.instances v r → m.LeadsTo v outer o) ∧
    ∀ s, RendersSlot m.heap.instances s r →
      ∃ name v access, s = .field name v access ∧ m.LeadsTo v outer o := by
  -- by the place of what is cut off; a slot is around every value in it and leads there by one step
  induction h with
  | here =>
    refine ⟨fun v hv => ?_, nofun⟩
    cases hv with
    | cut => exact ⟨⟨o, .object o, .refl⟩, nofun⟩
  | field _ ih =>
    refine ⟨nofun, fun s hs => ?_⟩
    cases hs with
    | field hv => exact ⟨_, _, _, rfl, ih.1 _ hv⟩
  | item hitem _ ih =>
    refine ⟨fun v hv => ?_, nofun⟩
    cases hv with
    | array hitems =>
      obtain ⟨item, hmem, hshows⟩ := exists_related_of_mem hitems.flip _ hitem
      obtain ⟨⟨k, hk, hpath⟩, houter⟩ := ih.1 item hshows
      exact ⟨⟨k, .item hmem hk, hpath⟩, houter⟩
  | @slot outer o' slots slot hslot _ ih =>
    refine ⟨fun v hv => ?_, nofun⟩
    cases hv with
    | whole hslots =>
      obtain ⟨s, hmem, hshows⟩ := exists_related_of_mem hslots.flip _ hslot
      obtain ⟨name, w, access, rfl, ⟨k, hk, hpath⟩, houter⟩ := ih.2 s hshows
      have hrefers : m.Refers o' k := ⟨name, w, access, hmem, hk⟩
      refine ⟨⟨o', .object o', .head hrefers hpath⟩, fun j hj => ?_⟩
      rcases List.mem_append.1 hj with hj | hj
      · exact houter j hj
      · rw [List.mem_singleton.1 hj]
        exact .head' hrefers hpath

end Machine

/-- **Every value has a text, whatever the heap looks like**: the text of the one rendering of the
value in which an instance is cut off if and only if it lies inside of itself. If no instance that
can be reached from the value can reach itself, that is the one rendering in which nothing is cut
off. -/
theorem printable_rendered (m : Machine) (v : Value) :
    ∃ r : Rendering, r.text m.heap.instances = m.heap.printable v ∧
      (∀ r', Renders m.heap.instances v r' ∧ r'.CutWhere (fun outer h => h ∈ outer) ↔ r' = r) ∧
      ((∀ k h, v.Holds k → Relation.ReflTransGen m.Refers k h → ¬Relation.TransGen m.Refers h h) →
        ∀ r', Renders m.heap.instances v r' ∧ r'.CutWhere (fun _ _ => False) ↔ r' = r) := by
  obtain ⟨r, hshows, hcut, htext⟩ := exists_rendering m.heap.instances [] v
  simp only [List.append_nil] at hcut
  refine ⟨r, htext, fun r' => ⟨fun h => hshows.unique h.1 hcut h.2, ?_⟩, fun hreach => ?_⟩
  · rintro rfl
    exact ⟨hshows, hcut⟩
  · -- what is cut off lies inside of itself, so it would reach itself
    have hplain : r.CutWhere fun _ _ => False := by
      have hnone : ∀ outer h, ¬Rendering.Occurs (.cut h) outer r := by
        intro outer h hoccurs
        obtain ⟨⟨k, hk, hpath⟩, houter⟩ := (Machine.leadsTo_of_occurs hoccurs).1 v hshows
        exact hreach k h hk hpath (houter h (hcut.cut outer h hoccurs))
      exact ⟨hnone, fun _ _ _ _ => id⟩
    refine fun r' => ⟨fun h => hshows.unique h.1 hplain h.2, ?_⟩
    rintro rfl
    exact ⟨hshows, hplain⟩

namespace Loops

/-- An instance that holds itself, and one that holds a number. -/
def machine : Machine :=
  let heap := { Heap.empty with
    instances := ⟨#[⟨"Ring", [.field "next" (.object ⟨0⟩) .exposed]⟩,
      ⟨"Cell", [.field "x" (.int 1) .exposed]⟩]⟩ }
  { Machine.new .empty (.ofBytes []) with heap := heap }

/-- The cell holds a number, which refers to nothing. -/
theorem not_refers (k : Handle) : ¬machine.Refers ⟨1⟩ k := by
  rintro ⟨name, v, access, hslot, hk⟩
  have hslots : (machine.instanceAt ⟨1⟩).slots = [.field "x" (.int 1) .exposed] := rfl
  rw [hslots, List.mem_singleton] at hslot
  cases hslot
  cases hk

end Loops

open Loops in
/-- The ring is cut off where it lies inside of itself. The cell is written out each time. -/
theorem printable_rendered_loops :
    machine.heap.printable (.object ⟨0⟩) = "\x7bnext: \x7bRing ...\x7d\x7d" ∧
    machine.heap.printable (.array [.object ⟨1⟩, .object ⟨1⟩])
      = "[\x7bx: 1\x7d, \x7bx: 1\x7d]" := by
  constructor
  · obtain ⟨r, htext, hr, -⟩ := printable_rendered machine (.object ⟨0⟩)
    have hring : .whole ⟨0⟩ [.field "next" (.cut ⟨0⟩)] = r := by
      refine (hr _).1 ⟨.whole (.cons (.field (.cut _)) .nil), ?_⟩
      simp [Rendering.cutWhere_whole_iff, Rendering.cutWhere_field_iff, Rendering.cutWhere_cut_iff]
    have hbox : (machine.heap.instances.get ⟨0⟩).box = "Ring" := rfl
    rw [← htext, ← hring]
    simp [Rendering.text, hbox]
  · obtain ⟨r, htext, -, hr⟩ := printable_rendered machine (.array [.object ⟨1⟩, .object ⟨1⟩])
    let cell : Rendering := .whole ⟨1⟩ [.field "x" (.leaf "1")]
    have hcell : Renders machine.heap.instances (.object ⟨1⟩) cell :=
      .whole (.cons (.field (.int 1)) .nil)
    have hcells : .array [cell, cell] = r := by
      refine (hr ?_ _).1 ⟨.array (.cons hcell (.cons hcell .nil)), ?_⟩
      -- nothing here refers to anything, so nothing is inside of itself
      · intro k h hk hpath hloop
        have hwithin : (Value.array [.object ⟨1⟩, .object ⟨1⟩]).Within (· = ⟨1⟩) := by simp
        obtain rfl := hwithin k hk
        obtain rfl | ⟨j, hj, -⟩ := hpath.cases_head
        · obtain ⟨j, hj, -⟩ := Relation.TransGen.head'_iff.1 hloop
          exact not_refers j hj
        · exact not_refers j hj
      · simp [cell, Rendering.cutWhere_array_iff, Rendering.cutWhere_whole_iff,
          Rendering.cutWhere_field_iff, Rendering.cutWhere_leaf]
    rw [← htext, ← hcells]
    simp [cell, Rendering.text]

end BoxScript
