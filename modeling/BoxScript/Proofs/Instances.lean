import BoxScript.Proofs.Evaluation

/-!
# What stays of an instance

Values of fields and levels of functions change all the time, but nothing else about an instance
does. `Instance.outline` is that rest: the names and accesses of its fields, and the routines of its
functions with the cells that hold their locals. Creating an instance takes new cells for its
functions and leaves all cells that are there as they are.
-/

namespace BoxScript

/-! ## Cells -/

namespace Pool

variable {α : Type} [Inhabited α]

theorem get_push_of_ne {p : Pool α} {h : Handle} (hh : h ≠ p.next) (a : α) :
    (p.push a).get h = p.get h := by
  have hne : h.index ≠ p.cells.size := fun e => hh (by cases h; simp_all [next])
  simp [get, push, Array.getElem?_push, hne]

/-- A handle that no cell has reads the default. -/
theorem get_of_le {p : Pool α} {h : Handle} (hh : p.size ≤ h.index) : p.get h = default := by
  simp only [size] at hh
  simp [get, hh]

/-- A new cell with the default in it cannot be told from no cell. -/
theorem get_push_default (p : Pool α) (h : Handle) : (p.push default).get h = p.get h := by
  by_cases hh : h = p.next
  · subst hh
    rw [get_push_next]
    exact (get_of_le (Nat.le_refl _)).symm
  · exact get_push_of_ne hh default

theorem get_modify_of_le {p : Pool α} {h : Handle} (hh : p.size ≤ h.index) (f : α → α)
    (k : Handle) : (p.modify h f).get k = p.get k := by
  by_cases hk : h = k
  · subst hk
    rw [get_of_le hh, get_of_le (by rw [size_modify]; exact hh)]
  · exact get_modify_of_ne hk f

/-- A change of a cell reads like the change or, elsewhere, like nothing. -/
theorem get_modify_cases (p : Pool α) (h : Handle) (f : α → α) (k : Handle) :
    (k = h ∧ h.index < p.size ∧ (p.modify h f).get k = f (p.get k)) ∨
      (p.modify h f).get k = p.get k := by
  by_cases hk : h = k
  · subst hk
    by_cases hh : h.index < p.size
    · exact .inl ⟨rfl, hh, get_modify_self hh f⟩
    · exact .inr (get_modify_of_le (by omega) f h)
  · exact .inr (get_modify_of_ne hk f)

/-- A change of a cell that is taken back leaves no trace. -/
theorem modify_undo {p : Pool α} {h : Handle} {f g : α → α} (hgf : g (f (p.get h)) = p.get h) :
    (p.modify h f).modify h g = p := by
  obtain ⟨cells⟩ := p
  unfold modify
  congr 1
  refine Array.ext_getElem? fun i => ?_
  rw [Array.getElem?_modify, Array.getElem?_modify]
  by_cases hi : h.index = i
  · subst hi
    rw [if_pos rfl, if_pos rfl]
    cases hcell : cells[h.index]? with
    | none => rfl
    | some a =>
      have hget : (Pool.mk cells).get h = a := by simp [get, hcell]
      rw [hget] at hgf
      exact congrArg some hgf
  · rw [if_neg hi, if_neg hi]

end Pool

/-! ## Outlines -/

/-- A slot without its value or level. -/
def Slot.outline : Slot → Slot
  | field name _ access => .field name .void access
  | function routine access locals => .function routine access { locals with level := 0 }

/-- An instance without the values and levels in it. -/
def Instance.outline (i : Instance) : List Slot := i.slots.map Slot.outline

theorem Instance.outline_setField (i : Instance) (name : String) (v : Value) :
    (i.setField name v).outline = i.outline := by
  have key : ∀ slots, (setFieldSlot name v slots).map Slot.outline = slots.map Slot.outline := by
    intro slots
    induction slots with
    | nil => rfl
    | cons slot rest ih =>
      cases slot with
      | field n old access =>
        unfold setFieldSlot
        split
        · rfl
        · rw [List.map_cons, List.map_cons, ih]
      | function routine access locals =>
        unfold setFieldSlot
        rw [List.map_cons, List.map_cons, ih]
  exact key i.slots

theorem Instance.outline_setLevel (i : Instance) (signature : Signature) (level : Nat) :
    (i.setLevel signature level).outline = i.outline := by
  have key : ∀ slots,
      (setLevelSlot signature level slots).map Slot.outline = slots.map Slot.outline := by
    intro slots
    induction slots with
    | nil => rfl
    | cons slot rest ih =>
      cases slot with
      | field n old access =>
        unfold setLevelSlot
        rw [List.map_cons, List.map_cons, ih]
      | function routine access locals =>
        unfold setLevelSlot
        split
        · rfl
        · rw [List.map_cons, List.map_cons, ih]
  exact key i.slots

theorem Instance.outline_mapFields (i : Instance) (f : String → Value → Value) :
    (i.mapFields f).outline = i.outline := by
  unfold outline mapFields
  rw [List.map_map]
  refine List.map_congr_left fun slot _ => ?_
  cases slot <;> rfl

/-- Changing one instance but not its outline changes no outline. -/
theorem outline_modify {p : Pool Instance} {h : Handle} {f : Instance → Instance}
    (hf : ∀ i, (f i).outline = i.outline) (k : Handle) :
    ((p.modify h f).get k).outline = (p.get k).outline := by
  rcases Pool.get_modify_cases p h f k with ⟨-, -, hget⟩ | hget
  · rw [hget, hf]
  · rw [hget]

/-- Instances with one outline have the same slots, up to values and levels. -/
theorem Instance.mem_slots_of_outline {i j : Instance} (h : j.outline = i.outline) {slot : Slot}
    (hslot : slot ∈ i.slots) : ∃ slot' ∈ j.slots, slot'.outline = slot.outline := by
  have hmem : slot.outline ∈ j.outline := by
    rw [h]
    exact List.mem_map_of_mem hslot
  exact List.mem_map.1 hmem

/-- One of the functions has these locals, at whatever level. -/
def Instance.HasLocals (i : Instance) (scopes returns : Handle) : Prop :=
  ∃ routine access level, Slot.function routine access ⟨scopes, returns, level⟩ ∈ i.slots

/-- One of the fields has this name. -/
def Instance.HasField (i : Instance) (name : String) : Prop :=
  ∃ v access, Slot.field name v access ∈ i.slots

/-- Which locals an instance has is a matter of its outline. -/
theorem Instance.HasLocals.of_outline {i j : Instance} (h : j.outline = i.outline)
    {scopes returns : Handle} (hi : i.HasLocals scopes returns) : j.HasLocals scopes returns := by
  obtain ⟨routine, access, level, hslot⟩ := hi
  obtain ⟨slot', hslot', heq⟩ := mem_slots_of_outline h hslot
  cases slot' with
  | field => cases heq
  | function r a l =>
    obtain ⟨s, t, level'⟩ := l
    cases heq
    exact ⟨_, _, level', hslot'⟩

theorem Instance.HasField.of_outline {i j : Instance} (h : j.outline = i.outline) {name : String}
    (hi : i.HasField name) : j.HasField name := by
  obtain ⟨v, access, hslot⟩ := hi
  obtain ⟨slot', hslot', heq⟩ := mem_slots_of_outline h hslot
  cases slot' with
  | field n v' a =>
    cases heq
    exact ⟨v', _, hslot'⟩
  | function => cases heq

theorem Instance.routines_of_outline {i j : Instance} (h : j.outline = i.outline) {r : Routine}
    (hr : r ∈ i.routines) : r ∈ j.routines := by
  obtain ⟨slot, hslot, heq⟩ := List.mem_filterMap.1 hr
  cases slot with
  | field => cases heq
  | function routine access locals =>
    cases heq
    obtain ⟨slot', hslot', heq'⟩ := mem_slots_of_outline h hslot
    cases slot' with
    | field => cases heq'
    | function r' a' l' =>
      injection heq' with hr'
      subst hr'
      exact mem_routines hslot'

theorem Instance.hasLocals_of_method? {i : Instance} {signature : Signature} {routine : Routine}
    {access : Access} {locals : Locals}
    (h : i.method? signature = some (routine, access, locals)) :
    i.HasLocals locals.scopes locals.returns :=
  ⟨routine, access, locals.level, (method?_eq_some h).1⟩

theorem Instance.mem_fields_iff {i : Instance} {x : String} :
    (∃ f ∈ i.fields, f.1 = x) ↔ i.HasField x := by
  constructor
  · rintro ⟨f, hf, rfl⟩
    obtain ⟨slot, hslot, heq⟩ := List.mem_filterMap.1 hf
    cases slot with
    | field n v a =>
      cases heq
      exact ⟨v, a, hslot⟩
    | function => cases heq
  · rintro ⟨v, a, hslot⟩
    exact ⟨(x, v), List.mem_filterMap.2 ⟨_, hslot, rfl⟩, rfl⟩

/-! ## New instances -/

/-- A heap with new cells for locals, which hold nothing. -/
structure Heap.Grown (heap heap' : Heap) : Prop where
  scopes : ∀ h, heap'.scopes.get h = heap.scopes.get h
  returns : ∀ h, heap'.returns.get h = heap.returns.get h
  moreScopes : heap.scopes.size ≤ heap'.scopes.size
  moreReturns : heap.returns.size ≤ heap'.returns.size
  functions : heap'.functions = heap.functions
  boxes : heap'.boxes = heap.boxes
  extensions : heap'.extensions = heap.extensions
  instances : heap'.instances = heap.instances

/-- A function slot whose locals are in cells of the new heap that the old one did not have. -/
def Slot.NewIn (heap heap' : Heap) (specs : List MethodSpec) (slot : Slot) : Prop :=
  ∃ f ∈ specs, ∃ locals : Locals, slot = .function f.routine f.access locals ∧
    heap.scopes.size ≤ locals.scopes.index ∧ locals.scopes.index < heap'.scopes.size ∧
    heap.returns.size ≤ locals.returns.index ∧ locals.returns.index < heap'.returns.size

/-- The function slots of a new instance have new cells. -/
theorem makeMethodsFrom_grown (made : List Slot) (specs : List MethodSpec) (heap : Heap) :
    heap.Grown (makeMethodsFrom made specs heap).2 ∧
      ∀ slot ∈ (makeMethodsFrom made specs heap).1,
        slot ∈ made ∨ slot.NewIn heap (makeMethodsFrom made specs heap).2 specs := by
  induction specs generalizing made heap with
  | nil =>
    refine ⟨⟨fun _ => rfl, fun _ => rfl, Nat.le_refl _, Nat.le_refl _, rfl, rfl, rfl, rfl⟩, ?_⟩
    intro slot hslot
    exact .inl (List.mem_reverse.1 hslot)
  | cons f specs ih =>
    -- the heap after the first function
    let first : Heap :=
      { heap with scopes := heap.scopes.push .empty, returns := heap.returns.push [] }
    let locals : Locals := ⟨heap.scopes.next, heap.returns.next, 0⟩
    have hstep : makeMethodsFrom made (f :: specs) heap
        = makeMethodsFrom (.function f.routine f.access locals :: made) specs first := rfl
    rw [hstep]
    obtain ⟨grown, slots⟩ := ih (.function f.routine f.access locals :: made) first
    have hscopes : first.scopes.size = heap.scopes.size + 1 := Pool.size_push _ _
    have hreturns : first.returns.size = heap.returns.size + 1 := Pool.size_push _ _
    have hmoreScopes := grown.moreScopes
    have hmoreReturns := grown.moreReturns
    refine ⟨⟨fun h => ?_, fun h => ?_, by omega, by omega, grown.functions, grown.boxes,
      grown.extensions, grown.instances⟩, fun slot hslot => ?_⟩
    -- a new cell holds what is read where there is no cell
    · rw [grown.scopes h]
      exact Pool.get_push_default heap.scopes h
    · rw [grown.returns h]
      exact Pool.get_push_default heap.returns h
    · have hnext : locals.scopes.index = heap.scopes.size := rfl
      have hnextReturns : locals.returns.index = heap.returns.size := rfl
      rcases slots slot hslot with hmem | ⟨f', hf', locals', heq, hlow, hhigh, hlow', hhigh'⟩
      · rcases List.mem_cons.1 hmem with rfl | hmem
        · exact .inr ⟨f, List.mem_cons_self, locals, rfl, by omega, by omega, by omega, by omega⟩
        · exact .inl hmem
      · exact .inr ⟨f', List.mem_cons_of_mem _ hf', locals', heq, by omega, hhigh, by omega, hhigh'⟩

/-- **All that creating an instance does**: it takes new cells for the locals of the functions, and
one for the instance. -/
theorem allocate_cases (d : BoxDef) (fields : List Slot) (m : Machine) :
    ∃ methods heap, m.heap.Grown heap ∧ (∀ slot ∈ methods, slot.NewIn m.heap heap d.methods) ∧
      allocate d fields m = ⟨.ok heap.instances.next, { m with
        heap := { heap with instances := heap.instances.push ⟨d.name, fields ++ methods⟩ } }⟩ := by
  obtain ⟨grown, slots⟩ := makeMethodsFrom_grown [] d.methods m.heap
  refine ⟨_, _, grown, fun slot hslot => ?_, rfl⟩
  exact (slots slot hslot).resolve_left (List.not_mem_nil)

theorem FieldSlots.not_function {fields : List Slot} {specs : List FieldSpec}
    (h : FieldSlots fields specs) {routine : Routine} {access : Access} {locals : Locals} :
    Slot.function routine access locals ∉ fields := by
  intro hmem
  obtain ⟨n, hn, heq⟩ := List.getElem_of_mem hmem
  obtain ⟨hlength, hall⟩ := List.forall₂_iff_get.1 h
  obtain ⟨v, hv⟩ := hall n hn (hlength ▸ hn)
  rw [List.get_eq_getElem, heq] at hv
  cases hv

end BoxScript
