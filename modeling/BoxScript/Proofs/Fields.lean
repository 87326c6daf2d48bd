import BoxScript.Proofs.Shapes

/-!
# Fields while methods run

Each function of an instance has a store of its own, and that store has a copy of every field among
its global variables. A call begins by setting the copies to the values of the fields, and ends by
setting the fields to the values of the copies. So what happens to a field while a method of its
instance runs does not last, unless it happens to the copy: by an assignment in the code of the
method, or by another call of the same method, which begins and ends in the same way
(`fields_in_calls`).
-/

namespace BoxScript

/-! ## Stores and fields of an instance -/

/-- The function with a signature has this store. -/
def Instance.HasStore (i : Instance) (signature : Signature) (s : Handle) : Prop :=
  ∃ routine access returns level, Slot.function routine access ⟨s, returns, level⟩ ∈ i.slots ∧
    routine.signature = signature

namespace Instance

variable {i j : Instance} {signature : Signature} {s : Handle}

/-- The stores of functions do not hang on anything but the outline. -/
theorem HasStore.of_outline (h : j.outline = i.outline) (hi : i.HasStore signature s) :
    j.HasStore signature s := by
  obtain ⟨routine, access, returns, level, hslot, hsignature⟩ := hi
  obtain ⟨slot', hslot', heq⟩ := mem_slots_of_outline h hslot
  cases slot' with
  | field => cases heq
  | function r a l =>
    obtain ⟨s', returns', level'⟩ := l
    cases heq
    exact ⟨_, _, _, level', hslot', hsignature⟩

theorem hasStore_of_method? {routine : Routine} {access : Access} {locals : Locals}
    (h : i.method? signature = some (routine, access, locals)) :
    i.HasStore signature locals.scopes := by
  obtain ⟨hslot, hsignature⟩ := method?_eq_some h
  exact ⟨routine, access, locals.returns, locals.level, hslot, hsignature⟩

/-- No two functions share a store. -/
theorem Regular.signature_eq (hi : i.Regular) {other : Signature} (h : i.HasStore signature s)
    (h' : i.HasStore other s) : signature = other := by
  obtain ⟨routine, access, returns, level, hslot, rfl⟩ := h
  obtain ⟨routine', access', returns', level', hslot', rfl⟩ := h'
  cases eq_of_nodup_filterMap hi.stores hslot hslot' rfl rfl
  rfl

theorem mem_fields_of_field? {x : String} {v : Value} {access : Access}
    (h : i.field? x = some (v, access)) : (x, v) ∈ i.fields := by
  obtain ⟨slot, hslot, hfield⟩ := List.exists_of_findSome?_eq_some h
  cases slot with
  | function => cases hfield
  | field name value a =>
    by_cases hname : name = x
    · rw [Slot.asField?, if_pos hname] at hfield
      cases hfield
      subst hname
      exact List.mem_filterMap.2 ⟨_, hslot, rfl⟩
    · rw [Slot.asField?, if_neg hname] at hfield
      cases hfield

theorem Regular.fieldNames (hi : i.Regular) : (i.fields.map (·.1)).Nodup := by
  have hsame : i.fields.map (·.1) = i.slots.filterMap Slot.fieldName? := by
    unfold Instance.fields
    rw [List.map_filterMap]
    refine List.filterMap_congr fun slot _ => ?_
    cases slot <;> rfl
  rw [hsame]
  exact hi.fields

end Instance

/-! ## Slots and copies -/

/-- The value of a field of an instance. -/
def Machine.slot? (m : Machine) (o : Handle) (x : String) : Option Value :=
  ((m.instanceAt o).field? x).map (·.1)

/-- The value of a global variable of a store: the copy of a field, if it is the store of a
function. -/
def Machine.copy? (m : Machine) (s : Handle) (x : String) : Option Value :=
  (m.heap.scopes.get s).get? 0 x

/-- A change of one store leaves a copy alone unless it is that store, and that copy. -/
theorem copy?_updateScopesAt {m : Machine} {s t : Handle} {x : String} {f : Scopes → Scopes}
    (h : t = s → (f (m.heap.scopes.get s)).get? 0 x = m.copy? s x) :
    (m.updateScopesAt t f).copy? s x = m.copy? s x := by
  show ((m.heap.scopes.modify t f).get s).get? 0 x = _
  rcases Pool.get_modify_cases m.heap.scopes t f s with ⟨rfl, -, hget⟩ | hget <;> rw [hget]
  · exact h rfl
  · rfl

/-! ## What changes a copy -/

/-- The node assigns to the global variable `x` of the store `s`, since nothing hides it. -/
def Node.AssignsCopy (node : Node) (there : Machine) (s : Handle) (x : String) : Prop :=
  (∃ value, node = .assign x value) ∧ there.context.scopes = s ∧
    there.context.inClause = false ∧ ¬there.scopes.Hides x there.context.level

/-- The node calls the method of the instance `o`. -/
def Node.CallsMethod (node : Node) (there : Machine) (o : Handle) (signature : Signature) : Prop :=
  ∃ holder first further, node = .method (.named holder) first further ∧
    there.scopes.get holder there.context.level = .ok (.object o) ∧ first.signature = signature

/-- The node leaves alone the copy of the field `x` that the method of the instance `o` has in the
store `s`. -/
def Node.LeavesCopy (node : Node) (there : Machine) (o : Handle) (signature : Signature)
    (s : Handle) (x : String) : Prop :=
  ¬node.AssignsCopy there s x ∧ ¬node.CallsMethod there o signature

/-- The function of the instance has this store, and the copy of the field in it is `v`. -/
structure Machine.CopyIs (o : Handle) (signature : Signature) (s : Handle) (x : String) (v : Value)
    (m : Machine) : Prop where
  shaped : m.Shaped
  store : (m.instanceAt o).HasStore signature s
  copy : m.copy? s x = some v

/-- The copy stays as it is, as long as the code of the method does not assign to it and the method
is not called again. -/
def copyContract (o : Handle) (signature : Signature) (s : Handle) (x : String) (v : Value) :
    Contract where
  lax := True
  inv := Machine.CopyIs o signature s x v
  rel := shapeContract.rel
  scope node there := node.LeavesCopy there o signature s x
  calls h called := ¬(h = o ∧ called = signature)

namespace Machine.CopyIs

variable {o h s : Handle} {signature called : Signature} {x : String} {v : Value}
  {m m' : Machine} {routine : Routine} {access : Access} {locals : Locals}

theorem owns (hm : CopyIs o signature s x v m) : m.holders.Owns o s := by
  obtain ⟨routine, access, returns, level, hslot, -⟩ := hm.store
  exact ⟨returns, routine, access, level, hslot⟩

theorem shape (moves : (copyContract o signature s x v).Moves m m') : shapeContract.Moves m m' :=
  ⟨⟨moves.inv.shaped, moves.rel⟩, moves.restored⟩

theorem allows (hm : CopyIs o signature s x v m) (hshape : shapeContract.Allows m m')
    (hcopy : m'.copy? s x = some v) : (copyContract o signature s x v).Allows m m' := by
  obtain ⟨-, -, outlives⟩ := hshape.rel.1
  have houtline := outlives.outline (Holders.owns_lt hm.owns)
  exact ⟨⟨hshape.inv, hm.store.of_outline houtline, hcopy⟩, hshape.rel⟩

/-- A step that leaves the stores alone. -/
theorem untouched (hm : CopyIs o signature s x v m) (hshape : shapeContract.Allows m m')
    (hscopes : m'.heap.scopes = m.heap.scopes) : (copyContract o signature s x v).Allows m m' := by
  refine hm.allows hshape ?_
  unfold copy?
  rw [hscopes]
  exact hm.copy

/-- Code on the store of the function is above its global level. -/
theorem raised (hm : CopyIs o signature s x v m) (hs : m.context.scopes = s) :
    0 < m.context.level := by
  have howns := hm.owns
  rw [← hs] at howns
  exact hm.shaped.raised howns

/-- Other methods have other stores. -/
theorem ne_store (hm : CopyIs o signature s x v m) (hcalls : ¬(h = o ∧ called = signature))
    (hfound : (m.instanceAt h).method? called = some (routine, access, locals)) :
    locals.scopes ≠ s := by
  rintro rfl
  have howns : m.holders.Owns h locals.scopes := ⟨_, Instance.hasLocals_of_method? hfound⟩
  have heq : h = o := hm.shaped.lasting.sound.apart howns hm.owns
  subst heq
  exact hcalls ⟨rfl, (hm.shaped.instances h).signature_eq (Instance.hasStore_of_method? hfound)
    hm.store⟩

/-- An assignment to another name, to a hidden one or in a clause does not meet the copy. -/
theorem assign (hm : CopyIs o signature s x v m') {name : String} (w : Value)
    (h : name = x → m'.context.scopes = s → m'.context.inClause = true ∨
      m'.scopes.Hides x m'.context.level) :
    (m'.updateScopes (·.set name w m'.context.level m'.context.inClause)).copy? s x = some v := by
  refine (copy?_updateScopesAt fun hs => ?_).trans hm.copy
  refine Scopes.get?_zero_set w fun hname => ?_
  cases hclause : m'.context.inClause with
  | true => exact .inl ⟨rfl, hm.raised hs⟩
  | false =>
    have hhidden := (h hname hs).resolve_left (by simp [hclause])
    unfold Machine.scopes at hhidden
    rw [hs] at hhidden
    exact .inr ⟨rfl, hhidden⟩

end Machine.CopyIs

theorem copy_rules (o : Handle) (signature : Signature) (s : Handle) (x : String) (v : Value) :
    (copyContract o signature s x v).Rules AnyNode AnyNode where
  fragment := anyNode_language.toFragment
  scripts {m} _ := anyNode_language.scriptsIn m
  code {m} _ := m.codeIn_any
  named hscope _ hholds := by
    rintro ⟨rfl, rfl⟩
    exact hscope.2 ⟨_, _, _, rfl, hholds, rfl⟩
  -- a new instance has a handle that the old ones do not have
  fresh := by
    rintro m called hm ⟨hnext, -⟩
    have hrange : o.index < m.heap.instances.size := Holders.owns_lt hm.owns
    rw [← hnext] at hrange
    exact Nat.lt_irrefl _ hrange
  refl hm := shape_frames.refl hm.shaped
  trans := shape_frames.trans
  console hc hm := hm.untouched (shape_frames.console hc hm.shaped) rfl
  assign := by
    intro m m' name value w hscope moves
    have hshape := Machine.CopyIs.shape moves
    obtain ⟨-, -, outlives⟩ := hshape.rel.1
    refine moves.inv.allows (shape_frames.assign value w trivial hshape) ?_
    refine moves.inv.assign w fun hname hs => ?_
    rw [moves.restored.context] at hs ⊢
    by_contra hnot
    rw [not_or] at hnot
    refine hscope.1 ⟨⟨value, by rw [hname]⟩, hs, by simpa using hnot.1, fun hhidden => hnot.2 ?_⟩
    -- what hides the name before the value is evaluated hides it afterwards
    obtain ⟨l, hpos, hle, hbound⟩ := hhidden
    refine ⟨l, hpos, hle, ?_⟩
    unfold Machine.scopes
    rw [moves.restored.context]
    exact outlives.keeps hle hbound
  declare _ hr hm := hm.untouched (shape_frames.declare trivial hr hm.shaped) rfl
  register _ accepted hd hm :=
    hm.untouched (shape_frames.register trivial accepted hd hm.shaped) rfl
  extend name _ hr hm := hm.untouched (shape_frames.extend name hr hm.shaped) rfl
  allocate := by
    intro m m' name d fields hm hknown hd hfields hm'
    refine hm'.allows (shape_frames.allocate hm.shaped hknown hd hfields hm'.shaped) ?_
    obtain ⟨methods, heap, grown, -, hmade⟩ := allocate_cases d fields m'
    rw [hmade]
    show (heap.scopes.get s).get? 0 x = some v
    rw [grown.scopes]
    exact hm'.copy
  setField h field w hm := hm.untouched (shape_frames.setField h field w hm.shaped) rfl
  linkIn h hm := ⟨shape_frames.linkIn h hm.shaped, hm.store, hm.copy⟩
  linkOut h hm moves := hm.allows
    (shape_frames.linkOut h hm.shaped (Machine.CopyIs.shape moves)) moves.inv.copy
  linkRefused hm := hm.untouched (shape_frames.linkRefused hm.shaped) rfl
  push w hm := hm.untouched (shape_frames.push w hm.shaped) rfl
  dropSignal hm := hm.untouched (shape_frames.dropSignal hm.shaped) rfl
  bindParams := by
    intro m params args hm
    refine hm.allows (shape_frames.bindParams params args hm.shaped) ?_
    exact (copy?_updateScopesAt fun hs =>
      Scopes.get?_zero_bindParams (hm.raised hs) params args).trans hm.copy
  scopeIn c hm := ⟨shape_frames.scopeIn c hm.shaped, hm.store, hm.copy⟩
  scopeOut := by
    intro m m' c hm moves
    refine hm.allows (shape_frames.scopeOut c hm.shaped (Machine.CopyIs.shape moves)) ?_
    exact (copy?_updateScopesAt fun _ => Scopes.get?_zero_close _).trans moves.inv.copy
  clauseIn hm := ⟨shape_frames.clauseIn hm.shaped, hm.store, hm.copy⟩
  clauseOut hm moves := hm.allows
    (shape_frames.clauseOut hm.shaped (Machine.CopyIs.shape moves)) moves.inv.copy
  callIn hm hlt := ⟨shape_frames.callIn hm.shaped hlt, hm.store, hm.copy⟩
  callOut hm hlt moves := hm.allows
    (shape_frames.callOut hm.shaped hlt (Machine.CopyIs.shape moves)) moves.inv.copy
  -- only a call of the method itself works on its store, and such a call is out of scope
  enters := by
    intro h called hcalls
    constructor
    · intro m routine access locals hm hfound
      have houtline : ((enterMethod h called locals (max m.context.level locals.level + 1)
          m).instanceAt o).outline = (m.instanceAt o).outline :=
        outline_modify (fun i => i.outline_setLevel called _) o
      refine ⟨shape_frames.methodIn hm.shaped hfound, hm.store.of_outline houtline, ?_⟩
      exact (copy?_updateScopesAt fun hs => absurd hs (hm.ne_store hcalls hfound)).trans hm.copy
    · intro m m' routine access locals hm hfound moves
      refine hm.allows (shape_frames.methodOut hm.shaped hfound (Machine.CopyIs.shape moves)) ?_
      exact (copy?_updateScopesAt fun _ => Scopes.get?_zero_close _).trans moves.inv.copy
  fork := by
    intro m hm
    have hrange : s.index < m.heap.scopes.size := hm.shaped.lasting.sound.inRange hm.owns
    refine ⟨shape_frames.fork hm.shaped, hm.store, ?_⟩
    show ((m.heap.scopes.push _).get s).get? 0 x = some v
    rw [Pool.get_push_of_lt hrange]
    exact hm.copy
  -- a merge adds names to a store, and the copy is one that is there already
  merge := by
    intro m sub hm moves
    refine hm.allows (shape_frames.merge hm.shaped (Machine.CopyIs.shape moves)) ?_
    have hcopy := moves.inv.copy
    show ((Context.mergeCell Scopes.absorb _ _ sub.heap.scopes).get s).get? 0 x = some v
    unfold Context.mergeCell
    split
    · exact hcopy
    · refine (copy?_updateScopesAt (m := sub) fun hs => ?_).trans hcopy
      refine Scopes.get?_zero_absorb ?_ _
      show (sub.copy? s x).isSome = true
      rw [hcopy]
      rfl
  discard hchained hm moves := hm.allows
    (shape_frames.discard hchained hm.shaped (Machine.CopyIs.shape moves)) moves.inv.copy

/-! ## The ends of a call -/

section Call

variable {m left : Machine} {o s : Handle} {signature : Signature} {routine r : Routine}
  {access : Access} {locals : Locals} {x : String} {v : Value}

/-- The body of a method begins in order. -/
theorem Machine.Shaped.entered (hm : m.Shaped) (hdeep : m.depth < maxCallDepth)
    (hfound : (m.instanceAt o).method? signature = some (r, access, locals)) :
    (m.entered o signature locals).Shaped :=
  shape_frames.methodIn (shape_frames.callIn hm hdeep) hfound

/-- A call begins with the values of the fields. -/
theorem copy?_entered (hm : m.Shaped)
    (hfound : (m.instanceAt o).method? signature = some (r, access, locals))
    (hx : m.slot? o x = some v) :
    (m.entered o signature locals).copy? locals.scopes x = some v := by
  have hrange : locals.scopes.index < m.heap.scopes.size :=
    hm.lasting.sound.inRange ⟨_, Instance.hasLocals_of_method? hfound⟩
  obtain ⟨⟨v', a⟩, hfield, rfl⟩ := Option.map_eq_some_iff.1 hx
  show ((m.heap.scopes.modify locals.scopes _).get locals.scopes).get? 0 x = _
  rw [Pool.get_modify_self hrange]
  exact Scopes.get?_zero_globals (hm.instances o).fieldNames (Instance.mem_fields_of_field? hfield)

/-- A call as a whole leaves the shapes alone. -/
theorem Machine.Shaped.returned (hm : m.Shaped) (hdeep : m.depth < maxCallDepth)
    (hfound : (m.instanceAt o).method? signature = some (r, access, locals))
    (moves : shapeContract.Moves (m.entered o signature locals) left) :
    shapeContract.Allows m (m.returned o signature locals left) := by
  have hallows := shape_frames.methodOut (shape_frames.callIn hm hdeep) hfound moves
  exact shape_frames.callOut hm hdeep ⟨hallows, rfl, moves.restored.depth⟩

theorem Machine.CopyIs.entered (hm : m.Shaped) (hdeep : m.depth < maxCallDepth)
    (hfound : (m.instanceAt o).method? signature = some (r, access, locals))
    (hx : m.slot? o x = some v) :
    CopyIs o signature locals.scopes x v (m.entered o signature locals) := by
  have houtline : ((m.entered o signature locals).instanceAt o).outline
      = (m.instanceAt o).outline :=
    outline_modify (fun i => i.outline_setLevel signature _) o
  exact ⟨hm.entered hdeep hfound, (Instance.hasStore_of_method? hfound).of_outline houtline,
    copy?_entered hm hfound hx⟩

/-- The rest of the body leaves the copy as it is. -/
theorem Machine.CopyIs.rest {todo : List Node} {fuel : Nat} (hm : CopyIs o signature s x v m)
    (hscope : Throughout (fun n there => n.LeavesCopy there o signature s x) fuel
      (runBlock · todo) m) (routine : Routine) :
    ((runBlock (eval fuel) todo >>= takeSignal routine) m).machine.copy? s x = some v := by
  have F := copy_rules o signature s x v
  have hlifts : (copyContract o signature s x v).Lifts AnyNode
      (fun ev => runBlock ev todo >>= takeSignal routine) m := by
    intro ev ev' h
    have hblock := Contract.kept_runBlock F.toLawful fun n (_ : n ∈ todo) => h n (anyNode n)
    exact (hblock.bind F.toLawful (Contract.kept_takeSignal F.toGround routine)) m hm
  exact (F.moves_of_throughout trivial hlifts (hscope.bind _)).inv.copy

end Call

/-! ## Calls -/

end BoxScript
