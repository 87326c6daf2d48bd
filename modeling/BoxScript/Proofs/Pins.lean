import BoxScript.Proofs.Activations
import BoxScript.Proofs.Fields

/-!
# Cells that stay as they are

Code changes the cells of its own context, those that it has made, and those of the instances that
it gets to. `Pins` names cells of a machine, and `Machine.Pinned` says of a later machine that they
hold what they held then and that the code works on none of them. It goes on to be so as long as
nothing is done on the machine that `Pins.Spares` rules out: a call of a method whose locals or
whose instance are pinned, and a field of a pinned instance being set (`pin_rules`).

The first use of it is that methods leave the tables of their callers alone, wherever their code
goes (`method_leaves_caller`).
-/

namespace BoxScript

/-! ## Pools -/

namespace Pool

variable {α : Type} {P : Handle → Prop} {p q : Pool α}

/-- The cell is not one of those in `P` that the pool has. -/
def Free (P : Handle → Prop) (p : Pool α) (h : Handle) : Prop := h.index < p.size → ¬P h

theorem free_of_le {h : Handle} (hh : p.size ≤ h.index) : p.Free P h :=
  fun hlt => absurd hlt (Nat.not_lt.2 hh)

variable [Inhabited α]

/-- The cells of the first pool that are in `P` hold the same in the second one. -/
structure Keeps (P : Handle → Prop) (p q : Pool α) : Prop where
  size : p.size ≤ q.size
  same : ∀ {h}, h.index < p.size → P h → q.get h = p.get h

theorem Keeps.refl (P : Handle → Prop) (p : Pool α) : p.Keeps P p := ⟨Nat.le_refl _, fun _ _ => rfl⟩

/-- A new cell is none of the old ones. -/
theorem Keeps.next (k : p.Keeps P q) : p.Free P q.next := free_of_le k.size

theorem Keeps.of_get {r : Pool α} (k : p.Keeps P q) (hsize : q.size ≤ r.size)
    (hget : ∀ h, h.index < q.size → r.get h = q.get h) : p.Keeps P r where
  size := Nat.le_trans k.size hsize
  same hh hP := (hget _ (Nat.lt_of_lt_of_le hh k.size)).trans (k.same hh hP)

theorem Keeps.push (k : p.Keeps P q) (a : α) : p.Keeps P (q.push a) :=
  k.of_get (by rw [size_push]; omega) fun _ hh => get_push_of_lt hh a

theorem Keeps.modify (k : p.Keeps P q) {t : Handle} (hfree : p.Free P t) (f : α → α) :
    p.Keeps P (q.modify t f) where
  size := by
    rw [size_modify]
    exact k.size
  same {h} hh hP := by
    have hne : t ≠ h := by
      rintro rfl
      exact hfree hh hP
    rw [get_modify_of_ne hne, k.same hh hP]

theorem Keeps.mergeCell (k : p.Keeps P q) {into : Handle} (hfree : p.Free P into)
    (combine : α → α → α) (source : Handle) :
    p.Keeps P (Context.mergeCell combine into source q) := by
  unfold Context.mergeCell
  split
  · exact k
  · exact k.modify hfree _

end Pool

/-! ## Functions and their cells -/

/-- The function with a signature has this store and this stack. -/
def Instance.RunsOn (i : Instance) (signature : Signature) (s r : Handle) : Prop :=
  ∃ routine access level, Slot.function routine access ⟨s, r, level⟩ ∈ i.slots ∧
    routine.signature = signature

namespace Instance

variable {i j : Instance} {signature : Signature} {s r : Handle}

theorem RunsOn.hasLocals (h : i.RunsOn signature s r) : i.HasLocals s r := by
  obtain ⟨routine, access, level, hslot, -⟩ := h
  exact ⟨routine, access, level, hslot⟩

theorem RunsOn.of_outline (h : j.outline = i.outline) (hi : i.RunsOn signature s r) :
    j.RunsOn signature s r := by
  obtain ⟨routine, access, level, hslot, hsignature⟩ := hi
  obtain ⟨slot', hslot', heq⟩ := mem_slots_of_outline h hslot
  cases slot' with
  | field => cases heq
  | function routine' access' l =>
    obtain ⟨s', r', level'⟩ := l
    cases heq
    exact ⟨_, _, level', hslot', hsignature⟩

/-- A function that is found runs on its own store and stack. -/
theorem runsOn_of_method? {routine : Routine} {access : Access} {locals : Locals}
    (h : i.method? signature = some (routine, access, locals)) :
    i.RunsOn signature locals.scopes locals.returns := by
  obtain ⟨hslot, hsignature⟩ := method?_eq_some h
  exact ⟨routine, access, locals.level, hslot, hsignature⟩

end Instance

/-! ## Pins -/

/-- The node sets a field of the instance from outside: by an assignment, or by the extension that
does so. -/
def Node.SetsField (node : Node) (there : Machine) (o : Handle) : Prop :=
  (∃ holder field value, node = .setField holder field value ∧
      there.scopes.get holder there.context.level = .ok (.object o)) ∨
    ∃ target name args fuel, node = .extension target name args ∧
      Text.toLower name = "reflectionsetfield" ∧ (eval fuel target there).result = .ok (.object o)

/-- Cells of a machine, kind by kind. -/
structure Pins where
  scopes : Handle → Prop := fun _ => False
  functions : Handle → Prop := fun _ => False
  boxes : Handle → Prop := fun _ => False
  returns : Handle → Prop := fun _ => False
  extensions : Handle → Prop := fun _ => False
  instances : Handle → Prop := fun _ => False

namespace Pins

/-- None of the tables of the context is pinned. -/
structure Leaves (P : Pins) (m₀ : Machine) (c : Context) : Prop where
  scopes : m₀.heap.scopes.Free P.scopes c.scopes
  functions : m₀.heap.functions.Free P.functions c.functions
  boxes : m₀.heap.boxes.Free P.boxes c.boxes
  returns : m₀.heap.returns.Free P.returns c.returns
  extensions : m₀.heap.extensions.Free P.extensions c.extensions

/-- The method of the instance may be called: neither the instance nor the locals of the method are
pinned. -/
structure Calls (P : Pins) (m₀ : Machine) (h : Handle) (signature : Signature) : Prop where
  instances : m₀.heap.instances.Free P.instances h
  scopes : ∀ {s r}, (m₀.instanceAt h).RunsOn signature s r → m₀.heap.scopes.Free P.scopes s
  returns : ∀ {s r}, (m₀.instanceAt h).RunsOn signature s r → m₀.heap.returns.Free P.returns r

/-- The node calls no method that must not be called, and sets no field of a pinned instance. -/
structure Spares (P : Pins) (m₀ : Machine) (node : Node) (there : Machine) : Prop where
  calls : ∀ {h signature}, node.CallsMethod there h signature → P.Calls m₀ h signature
  sets : ∀ {h}, node.SetsField there h → m₀.heap.instances.Free P.instances h

end Pins

/-- The pinned cells of the machine `m₀` hold on the machine `m` what they held then. -/
structure Machine.Keeps (P : Pins) (m₀ m : Machine) : Prop where
  files : m.files = m₀.files
  scopes : m₀.heap.scopes.Keeps P.scopes m.heap.scopes
  functions : m₀.heap.functions.Keeps P.functions m.heap.functions
  boxes : m₀.heap.boxes.Keeps P.boxes m.heap.boxes
  returns : m₀.heap.returns.Keeps P.returns m.heap.returns
  extensions : m₀.heap.extensions.Keeps P.extensions m.heap.extensions
  instances : m₀.heap.instances.Keeps P.instances m.heap.instances
  outline : ∀ {h}, h.index < m₀.heap.instances.size →
    (m.instanceAt h).outline = (m₀.instanceAt h).outline
  /-- New functions have new cells. -/
  fresh : ∀ {h s r}, m₀.heap.instances.size ≤ h.index → (m.instanceAt h).HasLocals s r →
    m₀.heap.scopes.size ≤ s.index ∧ m₀.heap.returns.size ≤ r.index

/-- They do, and the code works on none of them. -/
structure Machine.Pinned (P : Pins) (m₀ m : Machine) : Prop extends Machine.Keeps P m₀ m where
  leaves : P.Leaves m₀ m.context

theorem Machine.Keeps.refl (P : Pins) (m : Machine) : m.Keeps P m where
  files := rfl
  scopes := .refl _ _
  functions := .refl _ _
  boxes := .refl _ _
  returns := .refl _ _
  extensions := .refl _ _
  instances := .refl _ _
  outline _ := rfl
  fresh hh hl := absurd (Holders.owns_lt (e := m.holders) ⟨_, hl⟩) (Nat.not_lt.2 hh)

namespace Machine.Pinned

variable {P : Pins} {m₀ m m' : Machine}

/-- A change of the store that the code works on. -/
theorem updateScopes (hm : Pinned P m₀ m) (f : Scopes → Scopes) :
    Pinned P m₀ (m.updateScopes f) :=
  { hm with scopes := hm.scopes.modify hm.leaves.scopes f }

theorem updateReturns (hm : Pinned P m₀ m) (f : Returns → Returns) :
    Pinned P m₀ (m.updateReturns f) :=
  { hm with returns := hm.returns.modify hm.leaves.returns f }

theorem updateBoxes (hm : Pinned P m₀ m) {table : Handle} (htable : table = m.context.boxes)
    (f : Boxes → Boxes) : Pinned P m₀ (m.updateBoxesAt table f) :=
  { hm with boxes := hm.boxes.modify (htable ▸ hm.leaves.boxes) f }

/-- A change of instances that leaves their outlines and the pinned ones alone. -/
theorem reinstance (hm : Keeps P m₀ m) {p : Pool Instance}
    (hkeeps : m₀.heap.instances.Keeps P.instances p)
    (houtline : ∀ h, (p.get h).outline = (m.instanceAt h).outline) :
    Keeps P m₀ { m with heap := { m.heap with instances := p } } :=
  { hm with
    instances := hkeeps
    outline := fun hh => (houtline _).trans (hm.outline hh)
    fresh := fun hh hl => hm.fresh hh (hl.of_outline (houtline _).symm) }

/-- Changing an instance that is free keeps the pinned ones. -/
theorem updateInstance (hm : Pinned P m₀ m) {h : Handle}
    (hfree : m₀.heap.instances.Free P.instances h) {f : Instance → Instance}
    (hf : ∀ i, (f i).outline = i.outline) : Pinned P m₀ (m.updateInstance h f) :=
  { reinstance hm.toKeeps (hm.instances.modify hfree f) (outline_modify hf) with
    leaves := hm.leaves }

/-- Code on the same tables at another level, in a clause or outside, at another depth. -/
theorem shift (hm : Pinned P m₀ m) (level : Nat) (c : Bool) (depth chained : Nat) :
    Pinned P m₀ { m with
      context := { m.context with level := level, inClause := c }
      depth := depth
      chained := chained } :=
  { hm with leaves := { hm.leaves with } }

/-- A new instance is apart from all that is pinned. -/
theorem allocate (hm : Pinned P m₀ m) {d : BoxDef} {fields : List Slot}
    (hfields : FieldSlots fields d.fields) : Pinned P m₀ (allocate d fields m).machine := by
  obtain ⟨methods, heap, grown, hmethods, hmade⟩ := allocate_cases d fields m
  rw [hmade]
  have hold : ∀ h, h.index < m.heap.instances.size →
      (heap.instances.push ⟨d.name, fields ++ methods⟩).get h = m.instanceAt h := by
    intro h hh
    rw [grown.instances, Pool.get_push_of_lt hh]
    rfl
  have hsize : m.heap.instances.size ≤ (heap.instances.push ⟨d.name, fields ++ methods⟩).size := by
    rw [grown.instances, Pool.size_push]
    omega
  refine ⟨?_, hm.leaves⟩
  constructor
  case files => exact hm.files
  case scopes => exact hm.scopes.of_get grown.moreScopes fun h _ => grown.scopes h
  case functions => exact grown.functions ▸ hm.functions
  case boxes => exact grown.boxes ▸ hm.boxes
  case returns => exact hm.returns.of_get grown.moreReturns fun h _ => grown.returns h
  case extensions => exact grown.extensions ▸ hm.extensions
  case instances => exact hm.instances.of_get hsize hold
  case outline =>
    intro h hh
    show ((heap.instances.push _).get h).outline = _
    rw [hold h (Nat.lt_of_lt_of_le hh hm.instances.size)]
    exact hm.outline hh
  case fresh =>
    intro h s r hh hl
    have hmore := hm.scopes.size
    have hmoreReturns := hm.returns.size
    change ((heap.instances.push _).get h).HasLocals s r at hl
    by_cases hnew : h = heap.instances.next
    · -- the functions of the new instance
      rw [hnew, Pool.get_push_next] at hl
      obtain ⟨routine, access, level, hslot⟩ := hl
      have hmem := (List.mem_append.1 hslot).resolve_left hfields.not_function
      obtain ⟨f, -, locals, heq, hlow, -, hlow', -⟩ := hmethods _ hmem
      cases heq
      exact ⟨Nat.le_trans hmore hlow, Nat.le_trans hmoreReturns hlow'⟩
    · rw [Pool.get_push_of_ne hnew, grown.instances] at hl
      exact hm.fresh hh hl

theorem linked (hm : Pinned P m₀ m) (h : Handle) : Pinned P m₀ (m.linked h) :=
  { hm with boxes := hm.boxes.modify hm.leaves.boxes _ }

section Methods

variable {h : Handle} {signature : Signature} {routine : Routine} {access : Access}
  {locals : Locals}

/-- The locals of a method that may be called are not pinned. -/
theorem free_locals (hm : Keeps P m₀ m) (hcalls : P.Calls m₀ h signature)
    (hfound : (m.instanceAt h).method? signature = some (routine, access, locals)) :
    m₀.heap.scopes.Free P.scopes locals.scopes ∧
      m₀.heap.returns.Free P.returns locals.returns := by
  have hruns := Instance.runsOn_of_method? hfound
  rcases Nat.lt_or_ge h.index m₀.heap.instances.size with hh | hh
  · have hbefore := hruns.of_outline (hm.outline hh).symm
    exact ⟨hcalls.scopes hbefore, hcalls.returns hbefore⟩
  · obtain ⟨hs, hr⟩ := hm.fresh hh hruns.hasLocals
    exact ⟨Pool.free_of_le hs, Pool.free_of_le hr⟩

/-- A method works on its locals, a new table of functions, and two tables of its caller. -/
theorem enterMethod (hm : Keeps P m₀ m) (hcalls : P.Calls m₀ h signature)
    (hfound : (m.instanceAt h).method? signature = some (routine, access, locals))
    (hboxes : m₀.heap.boxes.Free P.boxes m.context.boxes)
    (hextensions : m₀.heap.extensions.Free P.extensions m.context.extensions) (active : Nat) :
    Pinned P m₀ (enterMethod h signature locals active m) := by
  obtain ⟨hscopes, hreturns⟩ := free_locals hm hcalls hfound
  have hraised := reinstance hm (hm.instances.modify hcalls.instances (·.setLevel signature active))
    (outline_modify fun i => i.outline_setLevel signature active)
  exact
    { hraised with
      scopes := hm.scopes.modify hscopes _
      functions := hm.functions.push _
      leaves := ⟨hscopes, hm.functions.next, hboxes, hreturns, hextensions⟩ }

/-- Leaving a method changes its store and its instance, which are free. -/
theorem leaveMethod (hm : Pinned P m₀ m) (hcalls : P.Calls m₀ h signature)
    (hfound : (m.instanceAt h).method? signature = some (routine, access, locals))
    (hm' : Pinned P m₀ m') (closed level : Nat) :
    Pinned P m₀ (leaveMethod h signature locals m.context closed level m') := by
  obtain ⟨hscopes, -⟩ := free_locals hm.toKeeps hcalls hfound
  have hlevel := hm'.updateInstance hcalls.instances fun i => i.outline_setLevel signature level
  have hleft : Pinned P m₀ { (m'.updateScopesAt locals.scopes (·.close closed)).updateInstance h
      (·.setLevel signature level) with context := m.context } :=
    { hlevel with
      scopes := hm'.scopes.modify hscopes _
      leaves := hm.leaves }
  exact hleft.updateInstance hcalls.instances fun i => i.outline_mapFields _

end Methods

/-- An imported script works on new tables. -/
theorem forked (hm : Keeps P m₀ m) : Pinned P m₀ m.forked :=
  { hm with
    scopes := hm.scopes.push _
    functions := hm.functions.push _
    boxes := hm.boxes.push _
    returns := hm.returns.push _
    extensions := hm.extensions.push _
    leaves := ⟨hm.scopes.next, hm.functions.next, hm.boxes.next, hm.returns.next,
      hm.extensions.next⟩ }

/-- Merging a script changes the workplace of its caller, which is free. -/
theorem merged (hm : Pinned P m₀ m) (hm' : Pinned P m₀ m') : Pinned P m₀ (m.merged m') :=
  { hm' with
    scopes := hm'.scopes.mergeCell hm.leaves.scopes _ _
    functions := hm'.functions.mergeCell hm.leaves.functions _ _
    boxes := hm'.boxes.mergeCell hm.leaves.boxes _ _
    returns := hm'.returns.mergeCell hm.leaves.returns (fun a b => a ++ b.drop m.returns.length) _
    extensions := hm'.extensions.mergeCell hm.leaves.extensions _ _
    leaves := { hm.leaves with } }

end Machine.Pinned

/-- Pinned cells stay as they are, as long as they are spared. -/
def pinContract (P : Pins) (m₀ : Machine) : Tracked where
  lax := True
  inv := Machine.Pinned P m₀
  rel _ _ := True
  scope := P.Spares m₀
  calls := P.Calls m₀
  holds _ := True
  writes := m₀.heap.instances.Free P.instances

/-- Steps in scope change no cell that is pinned. -/
theorem pin_rules (P : Pins) (m₀ : Machine) : (pinContract P m₀).Rules AnyNode AnyNode where
  fragment := anyNode_language.toFragment
  scripts {m} _ := anyNode_language.scriptsIn m
  code {m} _ := m.codeIn_any
  refl _ := trivial
  trans _ _ := trivial
  -- what is called or written has to be free of pins; this is what the scope says of a node
  named hscope _ hholds := hscope.calls ⟨_, _, _, rfl, hholds, rfl⟩
  fresh _ hm :=
    { instances := hm.instances.next
      scopes := fun hruns => absurd (Holders.owns_lt (e := m₀.holders) ⟨_, hruns.hasLocals⟩)
        (Nat.not_lt.2 hm.instances.size)
      returns := fun hruns => absurd (Holders.owns_lt (e := m₀.holders) ⟨_, hruns.hasLocals⟩)
        (Nat.not_lt.2 hm.instances.size) }
  variable_ _ _ := Value.within_of_all (fun _ => trivial) _
  field _ _ _ := Value.within_of_all (fun _ => trivial) _
  fixed _ _ _ _ := Value.within_of_all (fun _ => trivial) _
  created _ := trivial
  signal _ := Value.within_of_all (fun _ => trivial) _
  console _ hm := ⟨{ hm with }, trivial⟩
  assign _ _ _ moves := ⟨moves.inv.updateScopes _, trivial⟩
  -- declarations go to the tables in use, and none of these is pinned
  declare _ _ hm := ⟨{ hm with functions := hm.functions.modify hm.leaves.functions _ }, trivial⟩
  register _ _ _ hm := ⟨hm.updateBoxes rfl _, trivial⟩
  extend _ _ _ hm :=
    ⟨{ hm with extensions := hm.extensions.modify hm.leaves.extensions _ }, trivial⟩
  allocate _ _ _ hfields _ hm := ⟨hm.allocate hfields, trivial⟩
  setField field hwrites _ hm :=
    ⟨hm.updateInstance hwrites fun i => i.outline_setField field _, trivial⟩
  linkIn _ hm := hm.linked _
  linkOut _ _ moves :=
    ⟨moves.inv.updateBoxes (congrArg Context.boxes moves.restored.context).symm _, trivial⟩
  linkRefused hm := ⟨{ hm with boxes := hm.boxes.modify hm.leaves.boxes _ }, trivial⟩
  push _ hm := ⟨hm.updateReturns _, trivial⟩
  dropSignal hm := ⟨hm.updateReturns _, trivial⟩
  bindParams _ _ hm := ⟨hm.updateScopes _, trivial⟩
  scopeIn c hm := hm.shift _ c _ _
  scopeOut _ _ moves := ⟨(moves.inv.updateScopes _).shift _ _ _ _, trivial⟩
  clauseIn hm := hm.shift _ true _ _
  clauseOut _ moves := ⟨moves.inv.shift _ _ _ _, trivial⟩
  callIn hm _ := { hm with }
  callOut _ _ moves := ⟨{ moves.inv with }, trivial⟩
  fork hm := Machine.Pinned.forked hm.toKeeps
  merge hm moves := ⟨hm.merged moves.inv, trivial⟩
  discard _ hm moves := ⟨{ moves.inv with leaves := hm.leaves }, trivial⟩
  enters hcalls :=
    { methodIn := fun hm hfound => Machine.Pinned.enterMethod hm.toKeeps hcalls hfound
        hm.leaves.boxes hm.leaves.extensions _
      methodOut := fun hm hfound moves => ⟨hm.leaveMethod hcalls hfound moves.inv _ _, trivial⟩ }

theorem pin_writable (P : Pins) (m₀ : Machine) (fuel : Nat) :
    (pinContract P m₀).Writable (evalWhile (P.Spares m₀) fuel) where
  assigned hscope _ hholds := hscope.sets (.inl ⟨_, _, _, rfl, hholds⟩)
  reflected {m target name args h} hscope _ hname hevaluates _ := by
    have hends : (evalWhile (P.Spares m₀) fuel target m).result ≠ .unfinished := by
      rw [hevaluates]
      nofun
    rw [evalWhile_eq hends] at hevaluates
    exact hscope.sets (.inr ⟨target, name, args, fuel, rfl, hname, hevaluates⟩)

/-- Pinned cells outlast the body of a method that spares them. -/
theorem Machine.Pinned.ofBody {P : Pins} {m : Machine} {h : Handle} {routine r : Routine}
    {access : Access} {locals : Locals} {args : List Value} {fuel : Nat}
    (hcalls : P.Calls m h routine.signature)
    (hfound : (m.instanceAt h).method? routine.signature = some (r, access, locals))
    (hboxes : m.heap.boxes.Free P.boxes m.context.boxes)
    (hextensions : m.heap.extensions.Free P.extensions m.context.extensions)
    (hspares : Throughout (P.Spares m) fuel (runBody · routine args)
      (m.entered h routine.signature locals)) :
    Machine.Pinned P m
      (runBody (eval fuel) routine args (m.entered h routine.signature locals)).machine := by
  have F := pin_rules P m
  have hentered : Machine.Pinned P m (m.entered h routine.signature locals) :=
    Machine.Pinned.enterMethod (m := m.deeper) { Machine.Keeps.refl P m with } hcalls hfound hboxes
      hextensions _
  have hlifts : (pinContract P m).Lifts AnyNode (runBody · routine args)
      (m.entered h routine.signature locals) :=
    Tracked.lifts_runBody F.toGround (fun n _ => anyNode n)
      (fun v _ => Value.within_of_all (fun _ => trivial) v) hentered
  exact (F.moves_of_throughout (pin_writable P m) trivial hlifts hspares).inv

/-! ## Callers -/

/-- The tables of the callers of methods: the stores and the stacks that belong to no function, and
all tables of functions. -/
def Machine.callers (m : Machine) : Pins where
  scopes s := ∀ k, ¬m.holders.Owns k s
  functions _ := True
  returns r := ∀ k s, ¬(m.instanceAt k).HasLocals s r

theorem Machine.calls_callers (m : Machine) (o : Handle) (signature : Signature) :
    m.callers.Calls m o signature where
  instances _ := id
  scopes hruns _ hpinned := hpinned _ ⟨_, hruns.hasLocals⟩
  returns hruns _ hpinned := hpinned _ _ hruns.hasLocals

theorem Machine.spares_callers (m : Machine) (node : Node) (there : Machine) :
    m.callers.Spares m node there :=
  ⟨fun _ => m.calls_callers _ _, fun _ _ => id⟩

/-- The tables that code works on are as they were. -/
structure Machine.TablesKept (m m' : Machine) : Prop where
  context : m'.context = m.context
  scopes : m'.scopes = m.scopes
  functions : m'.functions = m.functions
  returns : m'.returns = m.returns

/-- **Methods leave the tables of their callers alone.** Take any machine that comes about in the
course of a session, and code on it that does not work on the store of a function. Then a call of
any method, however it ends and whatever its body does, leaves all variables, functions and signals
of the code as they were. -/
theorem method_leaves_caller {m : Machine} (h : Attained m)
    (houter : m.Outer) (fuel : Nat) (o : Handle)
    (routine : Routine) (args : List Value) :
    m.TablesKept (runMethod (eval fuel) o routine args m).machine := by
  have hm := h.orderly
  rcases runMethod_cases o routine args m with ⟨e, hfails⟩ | ⟨r, access, locals, hfound, -, hruns⟩
  · rw [show (runMethod (eval fuel) o routine args m).machine = m from
      congrArg Outcome.machine (hfails (eval fuel))]
    exact ⟨rfl, rfl, rfl, rfl⟩
  have hleft := Machine.Pinned.ofBody (m.calls_callers _ _) hfound (fun _ => id) (fun _ => id)
    ((throughout_true fuel (runBody · routine args) _).mono fun n t _ => m.spares_callers n t)
  rw [show (runMethod (eval fuel) o routine args m).machine
      = m.returned o routine.signature locals _ from
    congrArg Outcome.machine (hruns (eval fuel))]
  have howns : m.holders.Owns o locals.scopes := ⟨_, Instance.hasLocals_of_method? hfound⟩
  refine ⟨rfl, ?_, ?_, ?_⟩
  · -- the scopes that the way out closes are those of the method
    have hne : locals.scopes ≠ m.context.scopes := fun heq => houter o (heq ▸ howns)
    refine (Pool.get_modify_of_ne hne _).trans ?_
    exact hleft.scopes.same hm.shaped.lasting.active.inRange houter
  · exact hleft.functions.same hm.shaped.functions trivial
  · refine hleft.returns.same hm.stack fun k s hl => ?_
    obtain ⟨level, hlocals⟩ := hl.localsAt
    exact houter k ((hm.paired hlocals).2 rfl ▸ hlocals.owns)

/-- The method of the cell, called by code on the session's own store. -/
theorem method_leaves_caller_cell :
    OneCell.machine.Outer ∧ OneCell.machine.TablesKept
      (runMethod (eval 5) ⟨0⟩ OneCell.put [.object ⟨0⟩] OneCell.machine).machine :=
  have houter := (Reachable.orderly OneCell.reachable).outer rfl
  ⟨houter, method_leaves_caller (.reachable OneCell.reachable) houter 5 _ _ _⟩

end BoxScript
