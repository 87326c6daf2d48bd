import BoxScript.Proofs.Lifetime
import BoxScript.Proofs.Restoration
import BoxScript.Proofs.Tables
import Mathlib

/-!
# Regular definitions and instances

A definition is checked for repeated members before it is registered, and it inherits no member
under a name that it has by then, so no definition has two fields of one name or two functions of
one signature. Then no instance has any either, nor two functions that share a store.
`Machine.Shaped` says so of all definitions and instances, and also that the tables of the context
are there, and that code which runs on the store of a function is above the global level. It holds
on every machine that a session can get to.
-/

namespace BoxScript

/-! ## Definitions -/

/-- A check for repeated items that finds none says that the items differ. -/
theorem firstRepeated?_eq_none {α : Type} [DecidableEq α] {seen l : List α}
    (h : firstRepeated? seen l = none) : l.Nodup ∧ ∀ a ∈ l, a ∉ seen := by
  induction l generalizing seen with
  | nil => exact ⟨.nil, nofun⟩
  | cons a l ih =>
    unfold firstRepeated? at h
    by_cases ha : a ∈ seen
    · rw [if_pos ha] at h
      cases h
    · rw [if_neg ha] at h
      obtain ⟨hnodup, hunseen⟩ := ih h
      have hnew : a ∉ l := fun hmem => hunseen a hmem List.mem_cons_self
      refine ⟨List.nodup_cons.2 ⟨hnew, hnodup⟩, fun b hb => ?_⟩
      rcases List.mem_cons.1 hb with rfl | hb
      · exact ha
      · exact fun hseen => hunseen b hb (List.mem_cons_of_mem _ hseen)

/-- The fields of a definition have different names, and its functions different signatures. -/
structure BoxDef.Regular (d : BoxDef) : Prop where
  fields : (d.fields.map (·.name)).Nodup
  methods : (d.methods.map (·.signature)).Nodup

/-- Only a definition without repeated members can be completed. -/
theorem BoxDef.regular_of_complete {d whole : BoxDef} {base : Option BoxDef}
    (h : d.complete base = .ok whole) : d.Regular := by
  unfold complete at h
  cases hf : firstRepeated? [] (d.fields.map (·.name)) with
  | some field =>
    rw [hf] at h
    cases h
  | none =>
    cases hm : firstRepeated? [] (d.methods.map (·.signature)) with
    | some signature =>
      rw [hf, hm] at h
      cases h
    | none => exact ⟨(firstRepeated?_eq_none hf).1, (firstRepeated?_eq_none hm).1⟩

/-- Items with different keys inherit no item with the key of another one, whatever there is to
inherit. -/
theorem nodup_inheritBy {α κ : Type} [BEq κ] [LawfulBEq κ] {key : α → κ} {own : List α}
    (hown : (own.map key).Nodup) (base : List α) : ((inheritBy key own base).map key).Nodup := by
  induction base generalizing own with
  | nil => exact hown
  | cons b base ih =>
    rw [inheritBy_cons]
    split
    · exact ih hown
    · next hnew =>
      have hnot : key b ∉ own.map key := by
        intro hthere
        obtain ⟨a, ha, hsame⟩ := List.mem_map.1 hthere
        exact hnew (List.any_eq_true.2 ⟨a, ha, beq_iff_eq.2 hsame⟩)
      refine ih ?_
      rw [List.map_append, List.map_singleton, ← List.concat_eq_append]
      exact hown.concat hnot

theorem BoxDef.Regular.inherit {d : BoxDef} (hd : d.Regular) (base : BoxDef) :
    (d.inherit base).Regular :=
  ⟨nodup_inheritBy hd.fields base.fields, nodup_inheritBy hd.methods base.methods⟩

/-- A definition that a machine registers is regular, whatever its base is. -/
theorem Machine.Accepts.regular {m : Machine} {d whole : BoxDef} (h : m.Accepts d whole) :
    whole.Regular := by
  obtain ⟨base, -, hwhole⟩ := h.complete
  have hd := BoxDef.regular_of_complete hwhole
  rw [BoxDef.eq_of_complete hwhole]
  cases base with
  | none => exact hd
  | some b => exact hd.inherit b

/-! ## Instances -/

/-- Of items with different keys no two have the same one. -/
theorem eq_of_nodup_filterMap {α β : Type} {f : α → Option β} {l : List α}
    (h : (l.filterMap f).Nodup) {a b : α} (ha : a ∈ l) (hb : b ∈ l) {k : β} (hak : f a = some k)
    (hbk : f b = some k) : a = b := by
  have hpairs := List.pairwise_filterMap.1 h
  have hsymmetric : Std.Symm fun a b => ∀ c, f a = some c → ∀ c', f b = some c' → c ≠ c' :=
    ⟨fun a b hab c hc c' hc' heq => hab c' hc' c hc heq.symm⟩
  by_contra hne
  exact hpairs.forall ha hb hne k hak k hbk rfl

/-- The store of a function slot. -/
def Slot.store? : Slot → Option Handle
  | field .. => none
  | function _ _ locals => some locals.scopes

/-- The fields have different names, and the functions different signatures and stores. -/
structure Instance.Regular (i : Instance) : Prop where
  fields : (i.slots.filterMap Slot.fieldName?).Nodup
  methods : (i.slots.filterMap Slot.signature?).Nodup
  stores : (i.slots.filterMap Slot.store?).Nodup

theorem Instance.regular_default : (default : Instance).Regular := ⟨.nil, .nil, .nil⟩

theorem Instance.Regular.of_outline {i j : Instance} (h : j.outline = i.outline) (hi : i.Regular) :
    j.Regular := by
  have key : ∀ {β : Type} (f : Slot → Option β), (∀ slot, f slot.outline = f slot) →
      j.slots.filterMap f = i.slots.filterMap f := by
    intro β f hf
    have hshape : ∀ k : Instance, k.slots.filterMap f = k.outline.filterMap f := by
      intro k
      unfold outline
      rw [List.filterMap_map]
      exact List.filterMap_congr fun slot _ => (hf slot).symm
    rw [hshape j, h, hshape i]
  constructor
  · rw [key _ fun slot => by cases slot <;> rfl]
    exact hi.fields
  · rw [key _ fun slot => by cases slot <;> rfl]
    exact hi.methods
  · rw [key _ fun slot => by cases slot <;> rfl]
    exact hi.stores

/-- The definition that reproduces an instance has its functions, and some of its fields. -/
theorem Instance.members_toBoxDef (i : Instance) (name : String) :
    ((i.toBoxDef name).fields.map (·.name)).Sublist (i.slots.filterMap Slot.fieldName?) ∧
      (i.toBoxDef name).methods.map (·.signature) = i.slots.filterMap Slot.signature? := by
  show (List.map _ (List.filterMap _ i.slots)).Sublist _ ∧ List.map _ (List.filterMap _ i.slots) = _
  rw [List.map_filterMap, List.map_filterMap]
  generalize i.slots = slots
  induction slots with
  | nil => exact ⟨.slnil, rfl⟩
  | cons slot slots ih =>
    obtain ⟨hfields, hmethods⟩ := ih
    cases slot with
    | field n v access =>
      refine ⟨?_, hmethods⟩
      cases hv : v.isVoid with
      | true =>
        simp only [List.filterMap_cons, hv, if_true, Option.map_none, Slot.fieldName?]
        exact hfields.cons _
      | false =>
        simp only [List.filterMap_cons, hv, Bool.false_eq_true, if_false, Option.map_some,
          Slot.fieldName?]
        exact hfields.cons_cons _
    | function routine access locals => exact ⟨hfields, congrArg (List.cons _) hmethods⟩

/-- The definition that is made up for an instance repeats no member. -/
theorem Instance.Regular.toBoxDef {i : Instance} (h : i.Regular) (name : String) :
    (i.toBoxDef name).Regular := by
  obtain ⟨hfields, hmethods⟩ := i.members_toBoxDef name
  refine ⟨h.fields.sublist hfields, ?_⟩
  rw [hmethods]
  exact h.methods

/-! ## New instances -/

/-- The fields of a new instance are those of its definition, in the same order. -/
theorem FieldSlots.members {slots : List Slot} {specs : List FieldSpec}
    (h : FieldSlots slots specs) :
    slots.filterMap Slot.fieldName? = specs.map (·.name) ∧
      slots.filterMap Slot.signature? = [] ∧ slots.filterMap Slot.store? = [] := by
  induction h with
  | nil => exact ⟨rfl, rfl, rfl⟩
  | cons hslot _ ih =>
    obtain ⟨v, rfl⟩ := hslot
    exact ⟨congrArg (List.cons _) ih.1, ih.2⟩

/-- The functions of a new instance are those of its definition, and each gets the next store. -/
theorem makeMethodsFrom_members (made : List Slot) (specs : List MethodSpec) (heap : Heap) :
    (makeMethodsFrom made specs heap).1.filterMap Slot.fieldName?
        = made.reverse.filterMap Slot.fieldName? ∧
      (makeMethodsFrom made specs heap).1.filterMap Slot.signature?
        = made.reverse.filterMap Slot.signature? ++ specs.map (·.signature) ∧
      (makeMethodsFrom made specs heap).1.filterMap Slot.store?
        = made.reverse.filterMap Slot.store?
          ++ (List.range' heap.scopes.size specs.length).map Handle.mk := by
  induction specs generalizing made heap with
  | nil => simp [makeMethodsFrom]
  | cons f specs ih =>
    obtain ⟨hfields, hmethods, hstores⟩ := ih (.function f.routine f.access
      ⟨heap.scopes.next, heap.returns.next, 0⟩ :: made)
      { heap with scopes := heap.scopes.push .empty, returns := heap.returns.push [] }
    refine ⟨hfields.trans ?_, hmethods.trans ?_, hstores.trans ?_⟩
    · simp [Slot.fieldName?]
    · simp only [List.reverse_cons, List.filterMap_append, List.map_cons, List.append_assoc]
      rfl
    · have hsize : (heap.scopes.push .empty).size = heap.scopes.size + 1 := Pool.size_push _ _
      have hnext : heap.scopes.next = ⟨heap.scopes.size⟩ := rfl
      simp only [hsize, hnext, List.reverse_cons, List.filterMap_append, List.length_cons,
        List.range'_succ, List.map_cons, List.append_assoc]
      rfl

theorem instanceAt_allocate (d : BoxDef) (fields : List Slot) (m : Machine) (h : Handle) :
    (allocate d fields m).machine.instanceAt h = if h = m.heap.instances.next
      then ⟨d.name, fields ++ (makeMethodsFrom [] d.methods m.heap).1⟩ else m.instanceAt h := by
  have hpool : (allocate d fields m).machine.heap.instances
      = m.heap.instances.push ⟨d.name, fields ++ (makeMethodsFrom [] d.methods m.heap).1⟩ := by
    rw [← instances_makeMethodsFrom [] d.methods m.heap]
    rfl
  unfold Machine.instanceAt
  rw [hpool]
  split
  · next hh => rw [hh, Pool.get_push_next]
  · next hh => exact Pool.get_push_of_ne hh _

/-- An instance of a regular definition is regular. -/
theorem regular_allocate {d : BoxDef} (hd : d.Regular) {fields : List Slot}
    (hfields : FieldSlots fields d.fields) (heap : Heap) (box : String) :
    Instance.Regular ⟨box, fields ++ (makeMethodsFrom [] d.methods heap).1⟩ := by
  obtain ⟨hnames, hnone, hstoreless⟩ := hfields.members
  obtain ⟨hfieldless, hmethods, hstores⟩ := makeMethodsFrom_members [] d.methods heap
  constructor
  · rw [List.filterMap_append, hnames, hfieldless]
    exact (List.append_nil _).symm ▸ hd.fields
  · rw [List.filterMap_append, hnone, hmethods]
    exact hd.methods
  · rw [List.filterMap_append, hstoreless, hstores]
    have hinjective : Function.Injective Handle.mk := by
      intro a b h
      cases h
      rfl
    exact List.Nodup.map hinjective List.nodup_range'

/-! ## The machine -/

/-- Names stay in their places, with no name pinned. -/
abbrev placeContract : Contract := lifetimeContract 0 fun _ _ _ => False

/-- All definitions and instances are regular, and the context is in order. -/
structure Machine.Shaped (m : Machine) : Prop where
  lasting : Lasting 0 (fun _ _ _ => False) m
  functions : m.context.functions.index < m.heap.functions.size
  boxes : m.context.boxes.index < m.heap.boxes.size
  definitions : m.heap.boxes.AllIn BoxDef.Regular
  instances : ∀ h, (m.instanceAt h).Regular
  /-- The store of a function is not used on its global level. -/
  raised : ∀ {h}, m.holders.Owns h m.context.scopes → 0 < m.context.level

/-- The machine stays in shape, and keeps its tables. -/
def shapeContract : Contract where
  lax := False
  inv := Machine.Shaped
  rel m m' := placeContract.rel m m' ∧ m.heap.functions.size ≤ m'.heap.functions.size ∧
    m.heap.boxes.size ≤ m'.heap.boxes.size

theorem place_frames : placeContract.Frames AnyNode AnyNode := lifetimeContract_frames _ _

namespace Machine.Shaped

variable {m m' : Machine}

theorem place (moves : shapeContract.Moves m m') : placeContract.Moves m m' :=
  ⟨⟨moves.inv.lasting, moves.rel.1⟩, moves.restored⟩

/-- The context stays, and no table is given up, so a machine is in shape if its definitions and
instances are. -/
theorem allows (hm : m.Shaped) (hplace : placeContract.Allows m m')
    (hfunctions : m'.context.functions = m.context.functions)
    (hboxes : m'.context.boxes = m.context.boxes)
    (hmore : m.heap.functions.size ≤ m'.heap.functions.size)
    (hmoreBoxes : m.heap.boxes.size ≤ m'.heap.boxes.size)
    (hdefinitions : m'.heap.boxes.AllIn BoxDef.Regular)
    (hinstances : ∀ h, (m'.instanceAt h).Regular) : shapeContract.Allows m m' where
  inv :=
    { lasting := hplace.inv
      functions := by
        rw [hfunctions]
        exact Nat.lt_of_lt_of_le hm.functions hmore
      boxes := by
        rw [hboxes]
        exact Nat.lt_of_lt_of_le hm.boxes hmoreBoxes
      definitions := hdefinitions
      instances := hinstances
      raised := by
        obtain ⟨hscopes, hlevel, o⟩ := hplace.rel
        intro h howns
        rw [hscopes] at howns
        rw [hlevel]
        exact hm.raised (o.owned howns hm.lasting.active.inRange) }
  rel := ⟨hplace.rel, hmore, hmoreBoxes⟩

/-- A step that leaves definitions and outlines alone. -/
theorem untouched (hm : m.Shaped) (hplace : placeContract.Allows m m')
    (hfunctions : m'.context.functions = m.context.functions)
    (hboxes : m'.context.boxes = m.context.boxes)
    (hmore : m.heap.functions.size ≤ m'.heap.functions.size)
    (hsame : m'.heap.boxes = m.heap.boxes)
    (houtline : ∀ h, (m'.instanceAt h).outline = (m.instanceAt h).outline) :
    shapeContract.Allows m m' := by
  refine hm.allows hplace hfunctions hboxes hmore (Nat.le_of_eq (by rw [hsame])) ?_ fun h => ?_
  · rw [hsame]
    exact hm.definitions
  · exact (hm.instances h).of_outline (houtline h)

/-- A change of one table of definitions. -/
theorem retable (hm : m.Shaped) (hplace : placeContract.Allows m m') (table : Handle)
    {f : Boxes → Boxes} (hboxes : m'.heap.boxes = m.heap.boxes.modify table f)
    (hf : ∀ {d : Boxes}, d.AllIn BoxDef.Regular → (f d).AllIn BoxDef.Regular)
    (hcontext : m'.context = m.context) (hfunctions : m'.heap.functions = m.heap.functions)
    (hinstances : m'.heap.instances = m.heap.instances) : shapeContract.Allows m m' := by
  refine hm.allows hplace (by rw [hcontext]) (by rw [hcontext])
    (Nat.le_of_eq (by rw [hfunctions])) ?_ ?_ fun h => ?_
  · exact Nat.le_of_eq (by rw [hboxes, Pool.size_modify])
  · rw [hboxes]
    exact hm.definitions.modify table hf
  · unfold instanceAt
    rw [hinstances]
    exact hm.instances h

/-- The way out of something that has left the tables of the context where they were. -/
theorem leaving (hm : m.Shaped) {entered left : Machine} (hplace : placeContract.Allows m m')
    (moves : shapeContract.Moves entered left) (hheap : entered.heap = m.heap)
    (hentered : entered.context.functions = m.context.functions ∧
      entered.context.boxes = m.context.boxes)
    (hcontext : m'.context.functions = left.context.functions ∧
      m'.context.boxes = left.context.boxes)
    (htables : m'.heap.functions = left.heap.functions ∧ m'.heap.boxes = left.heap.boxes)
    (hinstances : m'.heap.instances = left.heap.instances) : shapeContract.Allows m m' := by
  obtain ⟨-, hmore, hmoreBoxes⟩ := moves.rel
  refine hm.allows hplace ?_ ?_ ?_ ?_ ?_ fun h => ?_
  · rw [hcontext.1, moves.restored.context, hentered.1]
  · rw [hcontext.2, moves.restored.context, hentered.2]
  · rw [htables.1, ← hheap]
    exact hmore
  · rw [htables.2, ← hheap]
    exact hmoreBoxes
  · rw [htables.2]
    exact moves.inv.definitions
  · unfold instanceAt
    rw [hinstances]
    exact moves.inv.instances h

/-- The way out of a method writes values and a level, which no outline shows. -/
theorem outline_leaveMethod (h : Handle) (signature : Signature) (locals : Locals)
    (caller : Context) (closed level : Nat) (m : Machine) (k : Handle) :
    ((leaveMethod h signature locals caller closed level m).instanceAt k).outline
      = (m.instanceAt k).outline :=
  (outline_modify (fun i => i.outline_mapFields _) k).trans
    (outline_modify (fun i => i.outline_setLevel signature level) k)

theorem enterMethod (hm : m.Shaped) {h : Handle} {signature : Signature} {routine : Routine}
    {access : Access} {locals : Locals}
    (hfound : (m.instanceAt h).method? signature = some (routine, access, locals)) :
    (enterMethod h signature locals (max m.context.level locals.level + 1) m).Shaped where
  lasting := place_frames.methodIn hm.lasting hfound
  functions := by
    show m.heap.functions.size < (m.heap.functions.push _).size
    rw [Pool.size_push]
    omega
  boxes := hm.boxes
  definitions := hm.definitions
  instances k := (hm.instances k).of_outline
    (outline_modify (fun i => i.outline_setLevel signature _) k)
  raised _ := Nat.succ_pos _

/-- A script has tables of its own, and a store that belongs to no function. -/
theorem forked (hm : m.Shaped) : m.forked.Shaped where
  lasting := place_frames.fork hm.lasting
  functions := by
    show m.heap.functions.size < (m.heap.functions.push _).size
    rw [Pool.size_push]
    omega
  boxes := by
    show m.heap.boxes.size < (m.heap.boxes.push _).size
    rw [Pool.size_push]
    omega
  definitions := hm.definitions.push (hm.definitions _)
  instances := hm.instances
  raised howns := absurd (hm.lasting.sound.inRange howns) (Nat.lt_irrefl m.heap.scopes.size)

end Machine.Shaped

/-- No step puts a definition, an instance or the context out of shape. -/
theorem shape_frames : shapeContract.Frames AnyNode AnyNode where
  everywhere := ⟨fun _ _ => trivial, fun _ _ => trivial⟩
  fragment := anyNode_language.toFragment
  scripts {m} _ := anyNode_language.scriptsIn m
  code {m} _ := m.codeIn_any
  refl hm := ⟨place_frames.refl hm.lasting, Nat.le_refl _, Nat.le_refl _⟩
  trans h h' := ⟨place_frames.trans h.1 h'.1, Nat.le_trans h.2.1 h'.2.1, Nat.le_trans h.2.2 h'.2.2⟩
  -- a step that makes no definition and no instance is one of places, and so are most steps
  console hc hm := hm.untouched (place_frames.console hc hm.lasting) rfl rfl (Nat.le_refl _) rfl
    fun _ => rfl
  assign value v _ moves := moves.inv.untouched
    (place_frames.assign value v trivial (Machine.Shaped.place moves)) rfl rfl (Nat.le_refl _) rfl
    fun _ => rfl
  declare _ hr hm := hm.untouched (place_frames.declare trivial hr hm.lasting) rfl rfl
    (Nat.le_of_eq (Pool.size_modify _ _ _).symm) rfl fun _ => rfl
  register _ accepted hd hm := hm.retable
    (place_frames.register trivial accepted hd hm.lasting) _ rfl
    (fun hall => hall.insert _ accepted.regular) rfl rfl rfl
  extend name _ hr hm := hm.untouched (place_frames.extend name hr hm.lasting) rfl rfl
    (Nat.le_refl _) rfl fun _ => rfl
  allocate := by
    intro m m' name d fields hm hknown hd hfields hm'
    refine hm'.allows (place_frames.allocate hm.lasting hknown hd hfields hm'.lasting) rfl rfl ?_ ?_
      ?_ fun h => ?_
    all_goals obtain ⟨methods, heap, grown, -, hmade⟩ := allocate_cases d fields m'
    · rw [hmade]
      exact Nat.le_of_eq (by rw [← grown.functions])
    · rw [hmade]
      exact Nat.le_of_eq (by rw [← grown.boxes])
    · rw [hmade]
      show heap.boxes.AllIn _
      rw [grown.boxes]
      exact hm'.definitions
    · rw [instanceAt_allocate]
      split
      · exact regular_allocate (hm.definitions _ _ _ hknown) hfields m'.heap d.name
      · exact hm'.instances h
  setField h field v hm := hm.untouched (place_frames.setField h field v hm.lasting) rfl rfl
    (Nat.le_refl _) rfl (outline_modify fun i => i.outline_setField field v)
  linkIn h hm :=
    { lasting := place_frames.linkIn h hm.lasting
      functions := hm.functions
      boxes := by
        show _ < (Pool.modify _ _ _).size
        rw [Pool.size_modify]
        exact hm.boxes
      -- the definition that is made up repeats no member, since the instance does not
      definitions := hm.definitions.modify _ fun hall =>
        hall.insert _ ((hm.instances h).toBoxDef _)
      instances := hm.instances
      raised := hm.raised }
  linkOut := by
    intro m m' h hm moves
    obtain ⟨-, hmore, hmoreBoxes⟩ := moves.rel
    refine hm.allows (place_frames.linkOut h hm.lasting (Machine.Shaped.place moves)) ?_ ?_ hmore ?_
      ?_ moves.inv.instances
    · exact congrArg Context.functions moves.restored.context
    · exact congrArg Context.boxes moves.restored.context
    · change (Pool.modify _ _ _).size ≤ _ at hmoreBoxes
      show _ ≤ (Pool.modify _ _ _).size
      rw [Pool.size_modify] at hmoreBoxes ⊢
      exact hmoreBoxes
    · exact moves.inv.definitions.modify _ fun hall => hall.erase _
  linkRefused hm := hm.retable (place_frames.linkRefused hm.lasting) _ rfl
    (fun hall => hall.erase _) rfl rfl rfl
  push v hm := hm.untouched (place_frames.push v hm.lasting) rfl rfl (Nat.le_refl _) rfl
    fun _ => rfl
  dropSignal hm := hm.untouched (place_frames.dropSignal hm.lasting) rfl rfl (Nat.le_refl _) rfl
    fun _ => rfl
  bindParams params args hm := hm.untouched (place_frames.bindParams params args hm.lasting) rfl rfl
    (Nat.le_refl _) rfl fun _ => rfl
  scopeIn c hm :=
    { hm with
      lasting := place_frames.scopeIn c hm.lasting
      raised := fun _ => Nat.succ_pos _ }
  scopeOut c hm moves := hm.leaving
    (place_frames.scopeOut c hm.lasting (Machine.Shaped.place moves)) moves rfl ⟨rfl, rfl⟩
    ⟨rfl, rfl⟩ ⟨rfl, rfl⟩ rfl
  clauseIn hm := { hm with lasting := place_frames.clauseIn hm.lasting }
  clauseOut hm moves := hm.leaving
    (place_frames.clauseOut hm.lasting (Machine.Shaped.place moves)) moves rfl ⟨rfl, rfl⟩ ⟨rfl, rfl⟩
    ⟨rfl, rfl⟩ rfl
  callIn hm hlt := { hm with lasting := place_frames.callIn hm.lasting hlt }
  callOut hm hlt moves := hm.leaving
    (place_frames.callOut hm.lasting hlt (Machine.Shaped.place moves)) moves rfl ⟨rfl, rfl⟩
    ⟨rfl, rfl⟩ ⟨rfl, rfl⟩ rfl
  methodIn hm hfound := hm.enterMethod hfound
  methodOut := by
    intro m m' h signature routine access locals hm hfound moves
    obtain ⟨-, hmore, hmoreBoxes⟩ := moves.rel
    refine hm.allows (place_frames.methodOut hm.lasting hfound (Machine.Shaped.place moves)) rfl rfl
      ?_ hmoreBoxes moves.inv.definitions fun k => ?_
    · change (m.heap.functions.push _).size ≤ _ at hmore
      rw [Pool.size_push] at hmore
      exact Nat.le_of_succ_le hmore
    · exact (moves.inv.instances k).of_outline
        (Machine.Shaped.outline_leaveMethod h signature locals m.context _ _ m' k)
  fork hm := hm.forked
  merge := by
    intro m sub hm moves
    obtain ⟨-, hmore, hmoreBoxes⟩ := moves.rel
    -- the script has pushed a table of functions and one of definitions, which stay behind
    change (m.heap.functions.push _).size ≤ _ at hmore
    change (m.heap.boxes.push _).size ≤ _ at hmoreBoxes
    rw [Pool.size_push] at hmore hmoreBoxes
    refine hm.allows (place_frames.merge hm.lasting (Machine.Shaped.place moves)) rfl rfl ?_ ?_ ?_
      moves.inv.instances
    · show _ ≤ (Context.mergeCell _ _ _ sub.heap.functions).size
      rw [Machine.Formed.size_mergeCell]
      exact Nat.le_of_succ_le hmore
    · show _ ≤ (Context.mergeCell _ _ _ sub.heap.boxes).size
      rw [Machine.Formed.size_mergeCell]
      exact Nat.le_of_succ_le hmoreBoxes
    · exact moves.inv.definitions.mergeCell _ _
  discard := by
    intro m sub chained hchained hm moves
    obtain ⟨-, hmore, hmoreBoxes⟩ := moves.rel
    change (m.heap.functions.push _).size ≤ _ at hmore
    change (m.heap.boxes.push _).size ≤ _ at hmoreBoxes
    rw [Pool.size_push] at hmore hmoreBoxes
    exact hm.allows (place_frames.discard hchained hm.lasting (Machine.Shaped.place moves)) rfl rfl
      (Nat.le_of_succ_le hmore) (Nat.le_of_succ_le hmoreBoxes) moves.inv.definitions
      moves.inv.instances

/-! ## Sessions -/

/-- A new machine has empty tables and no instances. -/
theorem shaped_new (files : Files) (console : Console) : (Machine.new files console).Shaped where
  lasting := lasting_new files console
  functions := Nat.zero_lt_one
  boxes := Nat.zero_lt_one
  definitions := Pool.AllIn.push
    (fun h => by rw [Pool.get_of_le (Nat.zero_le _)]; exact Dict.allIn_empty) Dict.allIn_empty
  instances h := by
    rw [instanceAt_new]
    exact Instance.regular_default
  raised howns := absurd (Holders.owns_lt howns) (Nat.not_lt_zero _)

/-- Between runs a session is in the context that it began in. -/
theorem Idle.context_eq {m : Machine} (h : Idle m) : m.context = .next .empty 0 false := by
  induction h with
  | new => rfl
  | @recover m _ ih =>
    show ({ m.context with level := 0, inClause := false } : Context) = _
    rw [ih]
    rfl
  | run h hrun _ ih =>
    have hdepth := Reachable.depth_le (.idle h)
    exact (depthContract_frames.moves_runWith anyNode_language hdepth hrun).restored.context.trans
      ih

theorem Idle.level_eq_zero {m : Machine} (h : Idle m) : m.context.level = 0 := by
  rw [h.context_eq]
  rfl

/-- **All definitions and instances of a session are regular, and its context is in order.** -/
theorem Reachable.shaped {m : Machine} (h : Reachable m) : m.Shaped := by
  refine shape_frames.inv_of_reachable anyNode_language id shaped_new (fun m hidle hm => ?_) h
  have hlevel := hidle.level_eq_zero
  exact ⟨lasting_recover hm.lasting, hm.functions, hm.boxes, hm.definitions, hm.instances,
    fun howns => absurd (hm.raised howns) (by omega)⟩

theorem Attained.shaped {m : Machine} (h : Attained m) : m.Shaped :=
  shape_frames.inv_of_attained (fun _ => trivial) Reachable.shaped h

/-! ## A session with one instance -/

namespace OneCell

/-- A method that sets the field of its argument from outside, and gives the argument back. -/
def put : Routine := ⟨"f", ["o"], [.setField "o" "x" (.var "o"), .giveBack (some (.var "o"))]⟩

/-- A box with one field and that method, under a name that is also one of the made-up ones. -/
def program : Program :=
  [.box ⟨"anonymous_0", none, false, false, [⟨"x", .str "", .exposed⟩], [⟨put, .exposed, false⟩]⟩,
    .assign "b" (.create "anonymous_0")]

/-- The machine after the program: one instance, which `b` holds. -/
def machine : Machine := (runProgram (eval 5) program (.new .empty (.ofBytes []))).machine

/-- The tokens of its text. -/
def tokens : Tokens :=
  [(.keyword .refbox, ⟨0, 6⟩), (.ident "anonymous_0", ⟨7, 18⟩), (.ident "x", ⟨19, 20⟩),
    (.sign .eq, ⟨20, 21⟩), (.str "", ⟨21, 23⟩), (.keyword .function, ⟨24, 32⟩),
    (.ident "f", ⟨33, 34⟩), (.sign .lParen, ⟨34, 35⟩), (.ident "o", ⟨35, 36⟩),
    (.sign .rParen, ⟨36, 37⟩), (.ident "o", ⟨38, 39⟩), (.sign .dot, ⟨39, 40⟩),
    (.ident "x", ⟨40, 41⟩), (.sign .eq, ⟨41, 42⟩), (.ident "o", ⟨42, 43⟩),
    (.keyword .giveBack, ⟨44, 50⟩), (.ident "o", ⟨51, 52⟩), (.keyword .endBlock, ⟨53, 56⟩),
    (.ident "b", ⟨57, 58⟩), (.sign .eq, ⟨58, 59⟩), (.keyword .create, ⟨59, 65⟩),
    (.ident "anonymous_0", ⟨66, 77⟩)]

theorem parsed : Program.ofSource
    "refbox anonymous_0 x=\"\" function f(o) o.x=o return o end b=create anonymous_0"
      = .ok program := by
  have hscan : Token.scan
      "refbox anonymous_0 x=\"\" function f(o) o.x=o return o end b=create anonymous_0"
        = .ok tokens := by
    decide +kernel
  rw [ofSource_of_scan hscan]
  cbv

/-- A call of the method with the instance as its argument. -/
theorem parsed_call :
    Program.ofSource "b.f(b)" = .ok [.method (.named "b") ⟨"f", [.var "b"]⟩ []] := by
  have hscan : Token.scan "b.f(b)" = .ok [(.ident "b", ⟨0, 1⟩), (.sign .dot, ⟨1, 2⟩),
      (.ident "f", ⟨2, 3⟩), (.sign .lParen, ⟨3, 4⟩), (.ident "b", ⟨4, 5⟩),
      (.sign .rParen, ⟨5, 6⟩)] := by
    decide +kernel
  rw [ofSource_of_scan hscan]
  cbv

theorem run_program : (Machine.new .empty (.ofBytes [])).runWith 5
    "refbox anonymous_0 x=\"\" function f(o) o.x=o return o end b=create anonymous_0"
      = (.finished, machine) := by
  unfold Machine.runWith
  rw [parsed]
  rfl

theorem idle : Idle machine := .run (.new .empty (.ofBytes [])) run_program nofun

theorem reachable : Reachable machine := .idle idle

/-- The body of the method evaluates three nodes. -/
theorem throughout_put {P : Node → Machine → Prop}
    (hset : ∀ t, P (.setField "o" "x" (.var "o")) t) (hvar : ∀ t, P (.var "o") t)
    (hback : ∀ t, P (.giveBack (some (.var "o"))) t) (fuel : Nat) (h : Handle) (args : List Value)
    (m : Machine) : Throughout P (fuel + 2) (runMethod · h put args) m := by
  intro other
  have hvalue : evalOr P other (fuel + 1) (.var "o") = eval (fuel + 1) (.var "o") :=
    funext fun t => evalOr_of_holds (hvar t)
  have hfirst : evalOr P other (fuel + 2) (.setField "o" "x" (.var "o"))
      = eval (fuel + 2) (.setField "o" "x" (.var "o")) := by
    funext t
    refine (evalOr_of_holds (hset t)).trans ?_
    show (writeField _ "o" "x" (.var "o") >>= fun _ => pure Value.void : Exec Value) t = _
    unfold writeField
    rw [hvalue]
    rfl
  have hsecond : evalOr P other (fuel + 2) (.giveBack (some (.var "o")))
      = eval (fuel + 2) (.giveBack (some (.var "o"))) := by
    funext t
    refine (evalOr_of_holds (hback t)).trans ?_
    show (evalOr P other (fuel + 1) (.var "o") >>= fun v => _ : Exec Value) t = _
    rw [hvalue]
    rfl
  -- no statement of the block is replaced, so the block runs as it is
  have hblock : (runBlock (evalOr P other (fuel + 2)) put.body : Exec Bool)
      = runBlock (eval (fuel + 2)) put.body := by
    refine Contract.runBlock_congr fun n hn => ?_
    rcases List.mem_pair.1 hn with rfl | rfl
    · exact hfirst
    · exact hsecond
  have hbody : runBody (evalOr P other (fuel + 2)) put args
      = runBody (eval (fuel + 2)) put args := by
    unfold runBody
    rw [hblock]
  exact congrArg (Exec.asMethod h put.signature · m) hbody

end OneCell

end BoxScript
