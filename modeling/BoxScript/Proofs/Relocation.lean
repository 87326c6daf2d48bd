import BoxScript.Proofs.Seeding

/-!
# Locals in other cells

When a cell of a pool is given up for a new one, the pool has one more cell. What the old cell would
hold is found in the new one then, and all cells that are made later are one place further. A
`Relocation` says where each cell is found, and `Pool.Shifted` that it is found there.

No code can tell in which cells the locals of functions are. Its values refer to instances, and all
that it learns of an instance is the same if the locals are in other cells, down to the text of the
instance.
-/

namespace BoxScript

/-! ## Cells -/

/-- A cell of a pool is given up for a new one. -/
structure Relocation where
  /-- The cell that is given up. -/
  old : Handle
  /-- The place of the new cell. -/
  place : Nat
  old_lt : old.index < place

namespace Relocation

/-- Where a cell is found. -/
def moved (w : Relocation) (h : Handle) : Handle :=
  if h = w.old then ⟨w.place⟩ else if h.index < w.place then h else ⟨h.index + 1⟩

variable (w : Relocation)

theorem moved_old : w.moved w.old = ⟨w.place⟩ := if_pos rfl

theorem moved_of_lt {h : Handle} (hne : h ≠ w.old) (hlt : h.index < w.place) : w.moved h = h := by
  unfold moved
  rw [if_neg hne, if_pos hlt]

theorem moved_of_le {h : Handle} (hle : w.place ≤ h.index) : w.moved h = ⟨h.index + 1⟩ := by
  have hold := w.old_lt
  have hne : h ≠ w.old := by
    rintro rfl
    omega
  unfold moved
  rw [if_neg hne, if_neg (Nat.not_lt.2 hle)]

theorem moved_cases (h : Handle) : (h = w.old ∧ (w.moved h).index = w.place) ∨
    (h.index < w.place ∧ (w.moved h).index = h.index) ∨
    (w.place ≤ h.index ∧ (w.moved h).index = h.index + 1) := by
  by_cases hold : h = w.old
  · rw [hold, moved_old]
    exact .inl ⟨rfl, rfl⟩
  · rcases Nat.lt_or_ge h.index w.place with hlt | hge
    · rw [moved_of_lt w hold hlt]
      exact .inr (.inl ⟨hlt, rfl⟩)
    · rw [moved_of_le w hge]
      exact .inr (.inr ⟨hge, rfl⟩)

/-- Two cells are found in two places. -/
theorem moved_injective {h k : Handle} (heq : w.moved h = w.moved k) : h = k := by
  have hindex := congrArg Handle.index heq
  have hsame : h.index = k.index → h = k := fun h' => by
    cases h
    exact congrArg Handle.mk h'
  rcases w.moved_cases h with ⟨rfl, hh⟩ | ⟨hh, hh'⟩ | ⟨hh, hh'⟩ <;>
    rcases w.moved_cases k with ⟨rfl, hk⟩ | ⟨hk, hk'⟩ | ⟨hk, hk'⟩
  all_goals first | rfl | exact hsame (by omega)

theorem moved_ne {h k : Handle} (hne : h ≠ k) : w.moved h ≠ w.moved k :=
  fun heq => hne (w.moved_injective heq)

theorem moved_old_ne : w.moved w.old ≠ w.old := by
  intro heq
  have hold := w.old_lt
  rw [moved_old] at heq
  rw [← heq] at hold
  exact Nat.lt_irrefl _ hold

/-- The cells of the one pool are found among those of the other, which has one more. -/
theorem index_moved_lt {h : Handle} {n : Nat} (hn : w.place ≤ n) :
    (w.moved h).index < n + 1 ↔ h.index < n := by
  have hold := w.old_lt
  rcases w.moved_cases h with ⟨rfl, hh⟩ | ⟨hh, hh'⟩ | ⟨hh, hh'⟩ <;> omega

end Relocation

namespace Pool

variable {α : Type} [Inhabited α] {w : Relocation} {E : Handle → Prop} {p p' : Pool α}

/-- A change is read in its own cell, if there is such a cell, and nowhere else. -/
theorem get_modify (p : Pool α) (h : Handle) (f : α → α) (k : Handle) :
    (p.modify h f).get k = if k = h ∧ h.index < p.size then f (p.get k) else p.get k := by
  by_cases hk : k = h
  · subst hk
    by_cases hlt : k.index < p.size
    · rw [if_pos ⟨rfl, hlt⟩, get_modify_self hlt]
    · rw [if_neg fun hc => hlt hc.2, get_modify_of_le (Nat.not_lt.1 hlt)]
  · rw [if_neg fun hc => hk hc.1, get_modify_of_ne (Ne.symm hk)]

/-- The second pool has one more cell than the first one, and what a cell in `E` holds is found
where the relocation says. -/
structure Shifted (w : Relocation) (E : Handle → Prop) (p p' : Pool α) : Prop where
  place : w.place ≤ p.size
  size : p'.size = p.size + 1
  get : ∀ {h}, E h → p'.get (w.moved h) = p.get h

namespace Shifted

/-- The next cell of the one pool is found where the other one makes its next. -/
theorem next (h : Shifted w E p p') : w.moved p.next = p'.next := by
  have hplace : w.place ≤ p.next.index := h.place
  rw [w.moved_of_le hplace]
  show (⟨p.size + 1⟩ : Handle) = ⟨p'.size⟩
  rw [h.size]

theorem push (h : Shifted w E p p') (a : α) : Shifted w E (p.push a) (p'.push a) where
  place := by
    have hplace := h.place
    rw [size_push]
    omega
  size := by rw [size_push, size_push, h.size]
  get {k} hk := by
    by_cases heq : k = p.next
    · rw [heq, h.next, get_push_next, get_push_next]
    · have hne : w.moved k ≠ p'.next := by
        rw [← h.next]
        exact w.moved_ne heq
      rw [get_push_of_ne hne, get_push_of_ne heq, h.get hk]

theorem modify (h : Shifted w E p p') (k : Handle) (f : α → α) :
    Shifted w E (p.modify k f) (p'.modify (w.moved k) f) where
  place := by
    rw [size_modify]
    exact h.place
  size := by rw [size_modify, size_modify, h.size]
  get {j} hj := by
    have hlt : (w.moved k).index < p'.size ↔ k.index < p.size := by
      rw [h.size]
      exact w.index_moved_lt h.place
    have hcond : (w.moved j = w.moved k ∧ (w.moved k).index < p'.size)
        ↔ (j = k ∧ k.index < p.size) :=
      ⟨fun hc => ⟨w.moved_injective hc.1, hlt.1 hc.2⟩, fun hc => ⟨by rw [hc.1], hlt.2 hc.2⟩⟩
    rw [get_modify, get_modify, h.get hj]
    by_cases hc : j = k ∧ k.index < p.size
    · rw [if_pos hc, if_pos (hcond.2 hc)]
    · rw [if_neg hc, if_neg fun hc' => hc (hcond.1 hc')]

/-- Cells are merged where they are found, if the source is one of those that agree. -/
theorem mergeCell (h : Shifted w E p p') (combine : α → α → α) (into : Handle) {source : Handle}
    (hsource : E source) : Shifted w E (Context.mergeCell combine into source p)
      (Context.mergeCell combine (w.moved into) (w.moved source) p') := by
  unfold Context.mergeCell
  by_cases heq : into = source
  · rw [if_pos heq, if_pos (congrArg w.moved heq)]
    exact h
  · rw [if_neg heq, if_neg (w.moved_ne heq), h.get hsource]
    exact h.modify into _

/-- A cell is given up for the next one. -/
theorem of_push (p : Pool α) {old : Handle} (hold : old.index < p.size) (a : α) :
    Shifted ⟨old, p.size, hold⟩ (· ≠ old) p (p.push a) where
  place := Nat.le_refl _
  size := size_push p a
  get {k} hk := by
    rcases Nat.lt_or_ge k.index p.size with hlt | hge
    · rw [Relocation.moved_of_lt _ hk hlt, get_push_of_lt hlt]
    · rw [Relocation.moved_of_le _ hge, get_of_le hge, get_of_le]
      rw [size_push]
      exact Nat.succ_le_succ hge

/-- What the last cell holds as well is found. -/
theorem complete (h : Shifted w (· ≠ w.old) p p') (hold : p'.get ⟨w.place⟩ = p.get w.old) :
    Shifted w (fun _ => True) p p' where
  place := h.place
  size := h.size
  get {k} _ := by
    by_cases hk : k = w.old
    · rw [hk, w.moved_old, hold]
    · exact h.get hk

end Shifted

/-- The pools have the same cells, and what they hold in them is related. -/
structure Related {α : Type} [Inhabited α] (R : α → α → Prop) (p p' : Pool α) : Prop where
  size : p'.size = p.size
  get : ∀ h, R (p.get h) (p'.get h)

namespace Related

variable {R : α → α → Prop}

theorem next (h : Related R p p') : p'.next = p.next := by
  show (⟨p'.size⟩ : Handle) = ⟨p.size⟩
  rw [h.size]

theorem push (h : Related R p p') {a a' : α} (ha : R a a') : Related R (p.push a) (p'.push a') where
  size := by rw [size_push, size_push, h.size]
  get k := by
    by_cases heq : k = p.next
    · rw [heq, get_push_next, ← h.next, get_push_next]
      exact ha
    · have hne : k ≠ p'.next := by
        rw [h.next]
        exact heq
      rw [get_push_of_ne hne, get_push_of_ne heq]
      exact h.get k

/-- A cell is changed in both pools, in ways that keep the relation. -/
theorem modify (h : Related R p p') (k : Handle) {g g' : α → α}
    (hg : ∀ {a a'}, R a a' → R (g a) (g' a')) : Related R (p.modify k g) (p'.modify k g') where
  size := by rw [size_modify, size_modify, h.size]
  get j := by
    rw [get_modify, get_modify, h.size]
    split
    · exact hg (h.get j)
    · exact h.get j

/-- Cells are merged in both pools, and related contents stay related. -/
theorem mergeCell (h : Related R p p') {combine : α → α → α}
    (hcombine : ∀ {a a' b b'}, R a a' → R b b' → R (combine a b) (combine a' b'))
    (into source : Handle) :
    Related R (Context.mergeCell combine into source p)
      (Context.mergeCell combine into source p') := by
  unfold Context.mergeCell
  split
  · exact h
  · exact h.modify into fun ha => hcombine ha (h.get source)

end Related

/-- The second pool holds in each cell what `f` makes of the first one's. -/
structure Mapped {α : Type} [Inhabited α] (f : α → α) (p p' : Pool α) : Prop where
  size : p'.size = p.size
  get : ∀ h, p'.get h = f (p.get h)

/-- One pool is mapped to the other if they are related by the graph of the map. -/
theorem mapped_iff {f : α → α} : Mapped f p p' ↔ Related (fun a b => b = f a) p p' :=
  ⟨fun h => ⟨h.size, h.get⟩, fun h => ⟨h.size, h.get⟩⟩

namespace Mapped

variable {f : α → α}

theorem next (h : Mapped f p p') : p'.next = p.next := (mapped_iff.1 h).next

theorem push (h : Mapped f p p') (a : α) : Mapped f (p.push a) (p'.push (f a)) :=
  mapped_iff.2 ((mapped_iff.1 h).push rfl)

theorem modify (h : Mapped f p p') (k : Handle) {g g' : α → α} (hg : ∀ a, g' (f a) = f (g a)) :
    Mapped f (p.modify k g) (p'.modify k g') := by
  refine mapped_iff.2 ((mapped_iff.1 h).modify k ?_)
  rintro a _ rfl
  exact hg a

end Mapped
end Pool

/-! ## Instances -/

/-- A function of an instance gets new locals: a store and a stack in new cells. -/
structure Renewal where
  /-- The instance that the function belongs to. -/
  owner : Handle
  scopes : Relocation
  returns : Relocation

namespace Renewal

variable (ρ : Renewal)

/-- Locals in the cells in which they are found. -/
def locals (l : Locals) : Locals :=
  { l with scopes := ρ.scopes.moved l.scopes, returns := ρ.returns.moved l.returns }

/-- A slot with its locals in the cells in which they are found. -/
def slot : Slot → Slot
  | .field name value access => .field name value access
  | .function routine access l => .function routine access (ρ.locals l)

/-- An instance with all locals in the cells in which they are found. -/
def relocate (i : Instance) : Instance := { i with slots := i.slots.map ρ.slot }

/-- A context on the store and the stack where they are found. -/
def context (c : Context) : Context :=
  { c with scopes := ρ.scopes.moved c.scopes, returns := ρ.returns.moved c.returns }

theorem field?_relocate (i : Instance) (name : String) :
    (ρ.relocate i).field? name = i.field? name := by
  unfold Instance.field? relocate
  rw [List.findSome?_map]
  congr 1
  funext slot
  cases slot <;> rfl

/-- A function is found with its locals, in the cells in which they are found. -/
theorem method?_relocate (i : Instance) (signature : Signature) :
    (ρ.relocate i).method? signature
      = (i.method? signature).map fun found => (found.1, found.2.1, ρ.locals found.2.2) := by
  unfold Instance.method? relocate
  induction i.slots with
  | nil => rfl
  | cons slot rest ih =>
    rw [List.map_cons, List.findSome?_cons, List.findSome?_cons]
    cases slot with
    | field => exact ih
    | function routine access l =>
      have hslot : ∀ l', (Slot.function routine access l').asFunction? signature
          = if routine.signature = signature then some (routine, access, l') else none :=
        fun _ => rfl
      rw [Renewal.slot, hslot, hslot]
      by_cases hr : routine.signature = signature
      · rw [if_pos hr, if_pos hr]
        rfl
      · rw [if_neg hr, if_neg hr]
        exact ih

/-- What is read off the slots one by one, and not off locals, is the same. -/
theorem filterMap_relocate {β : Type} {f : Slot → Option β} (hf : ∀ slot, f (ρ.slot slot) = f slot)
    (i : Instance) : (ρ.relocate i).slots.filterMap f = i.slots.filterMap f := by
  unfold relocate
  rw [List.filterMap_map]
  exact List.filterMap_congr fun slot _ => hf slot

theorem fieldNames_relocate (i : Instance) (guardedToo : Bool) :
    (ρ.relocate i).fieldNames guardedToo = i.fieldNames guardedToo := by
  unfold Instance.fieldNames
  rw [List.filterMap_filter, List.filterMap_filter]
  exact ρ.filterMap_relocate (fun slot => by cases slot <;> rfl) i

theorem signatures_relocate (i : Instance) (guardedToo : Bool) :
    (ρ.relocate i).signatures guardedToo = i.signatures guardedToo := by
  unfold Instance.signatures
  rw [List.filterMap_filter, List.filterMap_filter]
  exact ρ.filterMap_relocate (fun slot => by cases slot <;> rfl) i

theorem fits_relocate (i : Instance) (d : BoxDef) : (ρ.relocate i).fits d = i.fits d := by
  unfold Instance.fits
  rw [fieldNames_relocate, signatures_relocate]

theorem routines_relocate (i : Instance) : (ρ.relocate i).routines = i.routines :=
  ρ.filterMap_relocate (fun slot => by cases slot <;> rfl) i

theorem fields_relocate (i : Instance) : (ρ.relocate i).fields = i.fields :=
  ρ.filterMap_relocate (fun slot => by cases slot <;> rfl) i

theorem toBoxDef_relocate (i : Instance) (name : String) :
    (ρ.relocate i).toBoxDef name = i.toBoxDef name := by
  unfold Instance.toBoxDef
  congr 1 <;> exact ρ.filterMap_relocate (fun slot => by cases slot <;> rfl) i

theorem setField_relocate (name : String) (v : Value) (i : Instance) :
    (ρ.relocate i).setField name v = ρ.relocate (i.setField name v) := by
  have key : ∀ slots : List Slot,
      setFieldSlot name v (slots.map ρ.slot) = (setFieldSlot name v slots).map ρ.slot := by
    intro slots
    induction slots with
    | nil => rfl
    | cons slot rest ih =>
      cases slot with
      | field n old access =>
        rw [List.map_cons, Renewal.slot, setFieldSlot, setFieldSlot]
        by_cases hn : n = name
        · rw [if_pos hn, if_pos hn]
          rfl
        · rw [if_neg hn, if_neg hn, ih]
          rfl
      | function routine access l =>
        exact congrArg (List.cons (ρ.slot (.function routine access l))) ih
  exact congrArg (Instance.mk i.box) (key i.slots)

theorem setLevel_relocate (signature : Signature) (level : Nat) (i : Instance) :
    (ρ.relocate i).setLevel signature level = ρ.relocate (i.setLevel signature level) := by
  have key : ∀ slots : List Slot, setLevelSlot signature level (slots.map ρ.slot)
      = (setLevelSlot signature level slots).map ρ.slot := by
    intro slots
    induction slots with
    | nil => rfl
    | cons slot rest ih =>
      cases slot with
      | field n old access =>
        exact congrArg (List.cons (.field n old access)) ih
      | function routine access l =>
        rw [List.map_cons, Renewal.slot, setLevelSlot, setLevelSlot]
        by_cases hr : routine.signature = signature
        · rw [if_pos hr, if_pos hr]
          rfl
        · rw [if_neg hr, if_neg hr, ih]
          rfl
  exact congrArg (Instance.mk i.box) (key i.slots)

theorem mapFields_relocate (f : String → Value → Value) (i : Instance) :
    (ρ.relocate i).mapFields f = ρ.relocate (i.mapFields f) := by
  unfold Instance.mapFields relocate
  congr 1
  rw [List.map_map, List.map_map]
  refine List.map_congr_left fun slot _ => ?_
  cases slot <;> rfl

end Renewal

/-! ## Text -/

/-- Slots that are written alike: a field with its value, a function with its parameters. -/
inductive Slot.WrittenLike : Slot → Slot → Prop
  | field (name : String) (value : Value) (access : Access) :
    WrittenLike (.field name value access) (.field name value access)
  | function {r r' : Routine} (access : Access) {l l' : Locals} (hname : r'.name = r.name)
    (hparams : r'.params = r.params) : WrittenLike (.function r access l) (.function r' access l')

/-- Instances that are written alike, slot by slot. -/
structure Instance.WrittenLike (i i' : Instance) : Prop where
  box : i'.box = i.box
  slots : List.Forall₂ Slot.WrittenLike i.slots i'.slots

section Text

variable {p p' : Pool Instance}

mutual

/-- The text of a value is the same where the instances are written alike. -/
theorem printableIn_related (h : p.Related Instance.WrittenLike p') (opened : List Handle)
    (v : Value) : v.printableIn p' opened = v.printableIn p opened := by
  cases v with
  | array items =>
    rw [Value.printableIn, Value.printableIn, printableItems_related h opened [] items]
  | object o =>
    rw [Value.printableIn, Value.printableIn, (h.get o).box, h.size]
    by_cases hopened : opened.contains o
    · rw [if_pos hopened, if_pos hopened]
    · rw [if_neg hopened, if_neg hopened]
      by_cases hlt : o.index < p.size
      · rw [if_pos hlt, if_pos hlt]
        exact congrArg (fun written => "\x7b" ++ ", ".intercalate written ++ "\x7d")
          (printableSlots_related h (o :: opened) [] (p.get o).slots (p'.get o).slots
            (h.get o).slots)
      · rw [if_neg hlt, if_neg hlt]
  | _ => rw [Value.printableIn, Value.printableIn]
termination_by (closedCount p.size opened, sizeOf v)
decreasing_by
  · exact Prod.Lex.right _ (by simp)
  · exact Prod.Lex.left _ _ (closedCount_cons_lt hlt hopened)

theorem printableItems_related (h : p.Related Instance.WrittenLike p') (opened : List Handle)
    (written : List String) (items : List Value) :
    printableItems p' opened written items = printableItems p opened written items := by
  cases items with
  | nil => rw [printableItems, printableItems]
  | cons item items =>
    rw [printableItems, printableItems, printableIn_related h opened item]
    exact printableItems_related h opened _ items
termination_by (closedCount p.size opened, sizeOf items)

theorem printableSlots_related (h : p.Related Instance.WrittenLike p') (opened : List Handle)
    (written : List String) (slots slots' : List Slot)
    (hslots : List.Forall₂ Slot.WrittenLike slots slots') :
    printableSlots p' opened written slots' = printableSlots p opened written slots := by
  cases hslots with
  | nil => rw [printableSlots, printableSlots]
  | cons hslot hslots =>
    cases hslot with
    | field name value access =>
      rw [printableSlots, printableSlots, printableIn_related h opened value]
      exact printableSlots_related h opened _ _ _ hslots
    | function access hname hparams =>
      rw [printableSlots, printableSlots, hname, hparams]
      exact printableSlots_related h opened _ _ _ hslots
termination_by (closedCount p.size opened, sizeOf slots)

end

/-- The text of a value tells nothing of the cells of locals. -/
theorem Renewal.printableIn_eq {ρ : Renewal} (h : p.Mapped ρ.relocate p') (opened : List Handle)
    (v : Value) : v.printableIn p' opened = v.printableIn p opened := by
  refine printableIn_related ⟨h.size, fun o => ?_⟩ opened v
  rw [h.get]
  refine ⟨rfl, List.forall₂_map_right_iff.2 (List.forall₂_same.2 fun slot _ => ?_)⟩
  cases slot with
  | field name value access => exact .field name value access
  | function routine access l => exact .function access rfl rfl

end Text

end BoxScript
