import BoxScript.Proofs.Code
import BoxScript.Proofs.Contract
import Mathlib.Data.List.Forall2

/-!
# The stages of calls and imports

The machines on which calls, rows of calls and imported scripts begin and end, and the equations
that take a call or an import apart into its way in, its body and its way out. Later modules speak
of these machines and do not unfold the rules again. A contract that allows the ways in and out
(`Contract.Scoped`, `Contract.Enters`) is kept by the whole if it is kept by the body.
-/

namespace BoxScript

/-- The slots are the fields of a definition in their order, with some values. -/
def FieldSlots (slots : List Slot) (fields : List FieldSpec) : Prop :=
  List.Forall₂ (fun slot f => ∃ v, slot = .field f.name v f.access) slots fields

/-! ## New instances -/

/-- Making functions adds stores and stacks, and no instance. -/
theorem instances_makeMethodsFrom (made : List Slot) (specs : List MethodSpec) (heap : Heap) :
    (makeMethodsFrom made specs heap).2.instances = heap.instances := by
  induction specs generalizing made heap with
  | nil => rfl
  | cons f specs ih => exact ih _ _

/-- A new instance gets the next handle. -/
theorem eq_next_of_allocate {d : BoxDef} {fields : List Slot} {m m' : Machine} {o : Handle}
    (h : allocate d fields m = ⟨.ok o, m'⟩) : o = m.heap.instances.next := by
  rw [← instances_makeMethodsFrom [] d.methods m.heap]
  cases h
  rfl

/-! ## Rows of calls -/

/-- The signature that a call asks for. -/
def Invocation.signature (call : Invocation) : Signature := ⟨call.name, call.args.length⟩

/-- The name of the definition that is made up when the counter stands at `k`. -/
def chainName (k : Nat) : String := "anonymous_" ++ toString k

/-- The machine on which a further call in a row is made on the instance `h`: a definition that
reproduces the instance stands under the next made-up name. -/
def Machine.linked (m : Machine) (h : Handle) : Machine :=
  { m with chained := m.chained + 1 }.updateBoxesAt m.context.boxes
    (·.insert (chainName m.chained) ((m.instanceAt h).toBoxDef (chainName m.chained)))

/-- A further call in a row, and those after it, on a copy that is made through the definition
`name`. -/
def linkFrom (ev : Evaluator) (table : Handle) (name : String) (call : Invocation)
    (calls : List Invocation) : Exec Value :=
  instantiate ev name >>= fun copy => callMethod ev copy call >>= fun v =>
    chainFrom ev table v calls

/-- **All that a further call in a row can do**: fail since its definition is refused, or run on the
machine that has the definition. Both ways the made-up name is dropped at the end. -/
theorem chainFrom_cases (table h : Handle) (call : Invocation) (calls : List Invocation)
    (m : Machine) :
    (∃ e, ∀ ev, chainFrom ev table (.object h) (call :: calls) m
      = ⟨.error e, dropBox table (chainName m.chained) { m with chained := m.chained + 1 }⟩) ∨
    ∀ ev, chainFrom ev table (.object h) (call :: calls) m
      = Exec.closing (linkFrom ev table (chainName m.chained) call calls)
          (dropBox table (chainName m.chained)) (m.linked h) := by
  -- the definition that is made up for the instance has no base, so completing it adds nothing
  let counted : Machine := { m with chained := m.chained + 1 }
  let d := (m.instanceAt h).toBoxDef (chainName m.chained)
  have hstep : ∀ ev, chainFrom ev table (.object h) (call :: calls) m
      = Exec.closing (registerBox d >>= fun _ => linkFrom ev table (chainName m.chained) call calls)
          (dropBox table (chainName m.chained)) counted := fun _ => rfl
  simp only [hstep, Exec.closing]
  rcases registerBox_cases d counted with ⟨e, h⟩ | ⟨whole, accepted, h⟩
  · exact .inl ⟨e, fun ev => by rw [Exec.bind_error h]⟩
  · obtain ⟨base, hbase, hwhole⟩ := accepted.complete
    have hnone : base = none := hbase
    have hsame : whole = d := by
      rw [BoxDef.eq_of_complete hwhole, hnone]
      rfl
    rw [hsame] at h
    exact .inr fun ev => by
      rw [Exec.bind_ok h]
      rfl

/-! ## Extensions -/

/-- What becomes an extension is a function of the definition, with so many parameters. -/
theorem extensionRoutine_mem {d : BoxDef} {box function : String} {arity : Int64}
    {routine : Routine} (h : extensionRoutine d box function arity = .ok routine) :
    (∃ f ∈ d.methods, f.routine = routine) ∧ (routine.params.length : Int) = arity.toInt := by
  unfold extensionRoutine at h
  cases hc : d.isConst with
  | false =>
    rw [hc] at h
    cases h
  | true =>
    cases ha : d.isAbstract with
    | true =>
      rw [hc, ha] at h
      cases h
    | false =>
      rw [hc, ha] at h
      simp only [Bool.not_true, Bool.false_eq_true, if_false] at h
      split at h
      · cases h
      · next f hf =>
        split at h
        · cases h
        · cases h
          have hfound := List.find?_some hf
          simp only [Bool.and_eq_true, beq_iff_eq] at hfound
          exact ⟨⟨f, List.mem_of_find?_eq_some hf, rfl⟩, hfound.2⟩

/-- An extension as a declaration makes it: its function is in `R`, and has a parameter for the
value that it is called on. -/
structure Extension.Declared (R : Routine → Prop) (e : Extension) : Prop where
  routine : R e.routine
  receiver : e.routine.params ≠ []

/-- With the number of parameters that a declaration asks for there is a first one. -/
theorem params_ne_nil_of_arity {routine : Routine} {arity : Int64} (hreceiver : ¬arity < 1)
    (harity : (routine.params.length : Int) = arity.toInt) : routine.params ≠ [] := by
  intro hnone
  rw [hnone] at harity
  exact hreceiver (Int64.lt_iff_toInt_lt.2 (harity ▸ Int.one_pos))

/-- What the built-in extensions of a value answer, if one of them has the name. -/
def builtinAnswer (name : String) (args : List Value) : Value → Exec (Option Value)
  | .array items => Exec.look (·.heap) >>= fun heap =>
      Exec.ofExcept (Builtin.ofArray heap.text name items args)
  | .str s => Exec.ofExcept (Builtin.ofString name s args)
  | .int n => Exec.ofExcept (Builtin.ofInt name n args)
  | .object h => ofInstance name h args
  | .void => pure none

/-- A call gives the answer, and fails if there is none. -/
def giveAnswer (name : String) : Option Value → Exec Value
  | some v => pure v
  | none => Exec.fail (.extensionNotFound name)

/-- A built-in extension is called for its answer, which may be that there is none. -/
theorem callBuiltin_eq (name : String) (receiver : Value) (args : List Value) :
    callBuiltin name receiver args = builtinAnswer name args receiver >>= giveAnswer name := by
  cases receiver <;> rfl

/-! ## Blocks -/

/-- What a branch or a loop runs in a block of its own. -/
def blockBody (ev : Evaluator) (fuel : Nat) : Node → Exec Unit
  | .ifElse condition yes no => do
    if ← holds ev condition then
      let _ ← runBlock ev yes
    else if let some no := no then
      let _ ← runBlock ev no
  | .whileDo condition body =>
    repeatWhile (holds ev condition) (runBlock ev body) (pure ()) fuel
  | .forDo init condition increment body => do
    Exec.asClause do let _ ← ev init
    repeatWhile (holds ev condition) (runBlock ev body)
      (Exec.asClause do let _ ← ev increment) fuel
  | _ => pure ()

/-- A statement with a block runs its body one level deeper and gives no value. -/
theorem evalNode_of_isBlock {node : Node} (h : node.isBlock = true) (ev : Evaluator) (fuel : Nat) :
    evalNode ev fuel node
      = Exec.inBlock (blockBody ev fuel node) >>= fun _ => pure Value.void := by
  cases node <;> first | rfl | cases h

/-! ## Functions and methods -/

/-- Run something as the body of a function, one scope level deeper. -/
def Exec.asFunction (body : Exec Value) : Exec Value :=
  Exec.asCall fun m =>
    let outer := m.context
    Exec.closing body (fun m => (m.closeTo outer.level).withClause outer.inClause)
      ((m.atLevel (outer.level + 1)).withClause false)

/-- A call of a function is its body on the way in and out of a function. -/
theorem invoke_eq (ev : Evaluator) (routine : Routine) (args : List Value) :
    invoke ev routine args = Exec.asFunction (runBody ev routine args) := rfl

/-- Run something as the body of a method, on its own locals. -/
def Exec.asMethod (h : Handle) (signature : Signature) (body : Exec Value) : Exec Value :=
  Exec.asCall fun m =>
    match (m.instanceAt h).method? signature with
    | none => ⟨.error (.undefinedFunction signature), m⟩
    | some (_, _, locals) =>
      let caller := m.context
      let closed := max caller.level locals.level
      Exec.closing body (leaveMethod h signature locals caller closed locals.level)
        (enterMethod h signature locals (closed + 1) m)

/-- A call of a method is its body on the way in and out of a method. -/
theorem runMethod_eq (ev : Evaluator) (h : Handle) (routine : Routine) (args : List Value) :
    runMethod ev h routine args = Exec.asMethod h routine.signature (runBody ev routine args) := rfl

/-- What follows the statements of a body: the call takes its signal. -/
def takeSignal (routine : Routine) (returned : Bool) : Exec Value := do
  if returned then
    let v ← Exec.look Machine.signal
    Exec.update Machine.dropSignal
    return v
  else
    Exec.fail (.missingReturn routine.name)

/-- The machine with the arguments bound to the parameters. -/
def Machine.bound (m : Machine) (routine : Routine) (args : List Value) : Machine :=
  m.updateScopes (bindParams m.context.level routine.params args)

/-- With the right number of arguments the block of the routine runs on the bound parameters. -/
theorem runBody_of_length {routine : Routine} {args : List Value}
    (h : args.length = routine.params.length) (ev : Evaluator) (m : Machine) :
    runBody ev routine args m
      = (runBlock ev routine.body >>= takeSignal routine) (m.bound routine args) := by
  unfold runBody
  rw [if_neg (not_not_intro h)]
  rfl

/-- The machine with one more call running. -/
def Machine.deeper (m : Machine) : Machine := { m with depth := m.depth + 1 }

/-- Below the bound on their depth, calls count up and down again. -/
theorem Exec.asCall_of_lt {α : Type} (body : Exec α) {m : Machine} (h : m.depth < maxCallDepth) :
    Exec.asCall body m = ⟨(body m.deeper).result,
      { (body m.deeper).machine with depth := (body m.deeper).machine.depth - 1 }⟩ := by
  unfold Exec.asCall
  rw [if_neg (Nat.not_le.2 h), Exec.deepening_eq]
  rfl

/-- The machine on which the body of a function begins that is called on the machine `m`. -/
def Machine.inCall (m : Machine) : Machine :=
  (m.deeper.atLevel (m.context.level + 1)).withClause false

/-- The machine after a function that was called on the machine `m`, if its body ends on `left`. -/
def Machine.afterCall (m left : Machine) : Machine :=
  { (left.closeTo m.context.level).withClause m.context.inClause with depth := left.depth - 1 }

/-- A call of a function runs its body one scope level deeper. -/
theorem invoke_of_lt {m : Machine} (h : m.depth < maxCallDepth) (ev : Evaluator)
    (routine : Routine) (args : List Value) :
    invoke ev routine args m = Exec.closing (runBody ev routine args) m.afterCall m.inCall :=
  Exec.asCall_of_lt _ h

/-- The machine on which the body of a method begins that is called on the machine `m`. -/
def Machine.entered (m : Machine) (h : Handle) (signature : Signature) (locals : Locals) :
    Machine :=
  enterMethod h signature locals (max m.context.level locals.level + 1) m.deeper

/-- The machine after a method that was called on the machine `m`, if its body ends on `left`. -/
def Machine.returned (m : Machine) (h : Handle) (signature : Signature) (locals : Locals)
    (left : Machine) : Machine :=
  { leaveMethod h signature locals m.context (max m.context.level locals.level) locals.level left
    with depth := left.depth - 1 }

/-- A call of a method runs its body on the locals of the method. -/
theorem runMethod_of_found {h : Handle} {routine r : Routine} {access : Access} {locals : Locals}
    {m : Machine} (hdeep : m.depth < maxCallDepth)
    (hfound : (m.instanceAt h).method? routine.signature = some (r, access, locals))
    (ev : Evaluator) (args : List Value) :
    runMethod ev h routine args m = Exec.closing (runBody ev routine args)
      (m.returned h routine.signature locals) (m.entered h routine.signature locals) := by
  have hdeeper : (m.deeper.instanceAt h).method? routine.signature = some (r, access, locals) :=
    hfound
  refine (Exec.asCall_of_lt _ hdeep).trans ?_
  simp only [hdeeper]
  rfl

/-- **All that a call of a method can do**: fail at once, since calls are too deep or there is no
such method, or run the body. -/
theorem runMethod_cases (h : Handle) (routine : Routine) (args : List Value) (m : Machine) :
    (∃ e, ∀ ev, runMethod ev h routine args m = ⟨.error e, m⟩) ∨
    ∃ r access locals, (m.instanceAt h).method? routine.signature = some (r, access, locals) ∧
      m.depth < maxCallDepth ∧
      ∀ ev, runMethod ev h routine args m = Exec.closing (runBody ev routine args)
        (m.returned h routine.signature locals) (m.entered h routine.signature locals) := by
  by_cases hdeep : maxCallDepth ≤ m.depth
  · exact .inl ⟨_, fun _ => if_pos hdeep⟩
  · have hlt : m.depth < maxCallDepth := by omega
    rcases hfound : (m.deeper.instanceAt h).method? routine.signature with _ | ⟨r, access, locals⟩
    · refine .inl ⟨.undefinedFunction routine.signature, fun ev => ?_⟩
      refine (Exec.asCall_of_lt _ hlt).trans ?_
      simp only [hfound]
      rfl
    · exact .inr ⟨r, access, locals, hfound, hlt, fun ev => runMethod_of_found hlt hfound ev args⟩

/-- The machine on which an imported script starts: all tables are copies. -/
def Machine.forked (m : Machine) : Machine :=
  { m with heap := (m.context.fork m.heap).2, context := (m.context.fork m.heap).1 }

/-- The machine `m` after an imported script has ended well on the machine `sub`. -/
def Machine.merged (m sub : Machine) : Machine :=
  { sub with
    heap := (m.context.merge sub.context m.returns.length sub.heap).2
    context := (m.context.merge sub.context m.returns.length sub.heap).1
    depth := m.depth
    chained := max m.chained sub.chained }

/-- The machine `m` after an imported script has failed on the machine `sub`. -/
def Machine.discarded (m sub : Machine) (chained : Nat) : Machine :=
  { sub with context := m.context, depth := m.depth, chained := chained }

/-- A script that cannot be read fails before it begins. -/
theorem importSource_of_error {source : String} {e : SyntaxError}
    (h : Program.ofSource source = .error e) (ev : Evaluator) (m : Machine) :
    importSource ev source m = ⟨.error (.importFailed e.display), m⟩ := by
  simp only [importSource, h]

/-- A script runs on copies of the tables, which are merged only if it succeeds. -/
theorem importSource_of_ok {source : String} {program : Program}
    (h : Program.ofSource source = .ok program) (ev : Evaluator) (m : Machine) :
    importSource ev source m = match runProgram ev program m.forked with
      | ⟨.ok _, sub⟩ => ⟨.ok (), m.merged sub⟩
      | ⟨.error e, sub⟩ => ⟨.error (.importFailed e.message), m.discarded sub m.chained⟩
      | ⟨.unfinished, sub⟩ => ⟨.unfinished, m.discarded sub sub.chained⟩ := by
  simp only [importSource, h]
  rfl

/-! ## Ways in and out -/

namespace Contract

variable {C : Contract} {N S : Node → Prop} {α : Type}

/-- Going into an imported script and out of it again is allowed. -/
structure Forks (C : Contract) : Prop extends Lawful C where
  fork : ∀ {m}, C.inv m → C.inv m.forked
  merge : ∀ {m sub}, C.inv m → C.Moves m.forked sub → C.Allows m (m.merged sub)
  discard : ∀ {m sub chained}, chained = m.chained ∨ chained = sub.chained → C.inv m →
    C.Moves m.forked sub → C.Allows m (m.discarded sub chained)

/-- Going into a scope, a clause, a call or a script and out of it again is allowed. -/
structure Scoped (C : Contract) : Prop extends Forks C where
  /-- Blocks and calls of functions run one level deeper. -/
  scopeIn : ∀ {m} (c : Bool), C.inv m →
    C.inv ((m.atLevel (m.context.level + 1)).withClause c)
  scopeOut : ∀ {m m'} (c : Bool), C.inv m →
    C.Moves ((m.atLevel (m.context.level + 1)).withClause c) m' →
    C.Allows m ((m'.closeTo m.context.level).withClause m.context.inClause)
  clauseIn : ∀ {m}, C.inv m → C.inv (m.withClause true)
  clauseOut : ∀ {m m'}, C.inv m → C.Moves (m.withClause true) m' →
    C.Allows m (m'.withClause m.context.inClause)
  callIn : ∀ {m}, C.inv m → m.depth < maxCallDepth → C.inv { m with depth := m.depth + 1 }
  callOut : ∀ {m m'}, C.inv m → m.depth < maxCallDepth →
    C.Moves { m with depth := m.depth + 1 } m' → C.Allows m { m' with depth := m'.depth - 1 }

/-- Going into a method of an instance and out of it again is allowed. -/
structure Enters (C : Contract) (h : Handle) (signature : Signature) : Prop where
  methodIn : ∀ {m routine access locals}, C.inv m →
    (m.instanceAt h).method? signature = some (routine, access, locals) →
    C.inv (enterMethod h signature locals (max m.context.level locals.level + 1) m)
  methodOut : ∀ {m m' routine access locals}, C.inv m →
    (m.instanceAt h).method? signature = some (routine, access, locals) →
    C.Moves (enterMethod h signature locals (max m.context.level locals.level + 1) m) m' →
    C.Allows m (leaveMethod h signature locals m.context (max m.context.level locals.level)
      locals.level m')

/-- Going into anything and out of it again is allowed. -/
structure Nested (C : Contract) : Prop extends Scoped C where
  methodIn : ∀ {m h signature routine access locals}, C.inv m →
    (m.instanceAt h).method? signature = some (routine, access, locals) →
    C.inv (enterMethod h signature locals (max m.context.level locals.level + 1) m)
  methodOut : ∀ {m m' h signature routine access locals}, C.inv m →
    (m.instanceAt h).method? signature = some (routine, access, locals) →
    C.Moves (enterMethod h signature locals (max m.context.level locals.level + 1) m) m' →
    C.Allows m (leaveMethod h signature locals m.context (max m.context.level locals.level)
      locals.level m')

theorem Nested.enters (E : C.Nested) (h : Handle) (signature : Signature) : C.Enters h signature :=
  ⟨E.methodIn, E.methodOut⟩

section Nesting

variable {x y : Exec α} {m m' : Machine}

theorem Scoped.enterBlock (E : C.Scoped) (hm : C.inv m) :
    C.inv (m.atLevel (m.context.level + 1)) := E.scopeIn m.context.inClause hm

theorem Scoped.leaveBlock (E : C.Scoped) (hm : C.inv m)
    (moves : C.Moves (m.atLevel (m.context.level + 1)) m') :
    C.Moves m (m'.closeTo m.context.level) := by
  have hclause : m'.context.inClause = m.context.inClause := by rw [moves.restored.context]; rfl
  have hleft : (m'.closeTo m.context.level).withClause m.context.inClause
      = m'.closeTo m.context.level := by rw [← hclause]; rfl
  refine ⟨hleft ▸ E.scopeOut m.context.inClause hm moves, ?_, moves.restored.depth⟩
  show ({ m'.context with level := m.context.level } : Context) = m.context
  rw [moves.restored.context]
  rfl

theorem Scoped.leaveClause (E : C.Scoped) (hm : C.inv m) (moves : C.Moves (m.withClause true) m') :
    C.Moves m (m'.withClause m.context.inClause) := by
  refine ⟨E.clauseOut hm moves, ?_, moves.restored.depth⟩
  show ({ m'.context with inClause := m.context.inClause } : Context) = m.context
  rw [moves.restored.context]
  rfl

theorem kept_inBlock (E : C.Scoped) (h : C.Kept x y) :
    C.Kept (Exec.inBlock x) (Exec.inBlock y) :=
  fun _ hm => h.closing (E.enterBlock hm) fun _ moves => E.leaveBlock hm moves

theorem kept_asClause (E : C.Scoped) (h : C.Kept x y) :
    C.Kept (Exec.asClause x) (Exec.asClause y) :=
  fun _ hm => h.closing (E.clauseIn hm) fun _ moves => E.leaveClause hm moves

theorem yields_asCall (E : C.Scoped) {A : α → Prop} (h : C.Yields A x y) :
    C.Yields A (Exec.asCall x) (Exec.asCall y) := by
  intro m hm
  unfold Exec.asCall
  rw [Exec.deepening_eq, Exec.deepening_eq]
  by_cases hdeep : maxCallDepth ≤ m.depth
  · rw [if_pos hdeep, if_pos hdeep]
    exact ⟨⟨.inr rfl, Moves.refl E.toLawful hm⟩, nofun⟩
  · rw [if_neg hdeep, if_neg hdeep]
    have hlt : m.depth < maxCallDepth := by omega
    refine (h _ (E.callIn hm hlt)).closing fun m' moves => ?_
    refine ⟨E.callOut hm hlt moves, moves.restored.context, ?_⟩
    show m'.depth - 1 = m.depth
    rw [moves.restored.depth]
    rfl

/-- The body of a function is called one level deeper and closed to the level of its caller. -/
theorem Scoped.yields_asFunction (E : C.Scoped) {A : Value → Prop} {x y : Exec Value}
    (h : C.Yields A x y) : C.Yields A (Exec.asFunction x) (Exec.asFunction y) := by
  refine yields_asCall E fun m hm => ?_
  refine (h _ (E.scopeIn false hm)).closing fun m' moves => ?_
  refine ⟨E.scopeOut false hm moves, ?_, moves.restored.depth⟩
  show ({ m'.context with level := m.context.level, inClause := m.context.inClause } : Context)
    = m.context
  rw [moves.restored.context]
  rfl

/-- The body of a method is called on its locals, if it is found. -/
theorem Enters.yields_asMethod {o : Handle} {signature : Signature} (M : C.Enters o signature)
    (E : C.Scoped) {A : Value → Prop} {x y : Exec Value} (h : C.Yields A x y) :
    C.Yields A (Exec.asMethod o signature x) (Exec.asMethod o signature y) := by
  refine yields_asCall E fun m hm => ?_
  rcases hfound : (m.instanceAt o).method? signature with _ | ⟨r, access, locals⟩
  · exact ⟨⟨.inr rfl, Moves.refl E.toLawful hm⟩, nofun⟩
  · exact (h _ (M.methodIn hm hfound)).closing fun m' moves =>
      ⟨M.methodOut hm hfound moves, rfl, moves.restored.depth⟩

theorem Scoped.kept_asFunction (E : C.Scoped) {x y : Exec Value} (h : C.Kept x y) :
    C.Kept (Exec.asFunction x) (Exec.asFunction y) := (E.yields_asFunction h.yields).kept

theorem Enters.kept_asMethod {o : Handle} {signature : Signature} (M : C.Enters o signature)
    (E : C.Scoped) {x y : Exec Value} (h : C.Kept x y) :
    C.Kept (Exec.asMethod o signature x) (Exec.asMethod o signature y) :=
  (M.yields_asMethod E h.yields).kept

theorem kept_asFunction (E : C.Nested) {x y : Exec Value} (h : C.Kept x y) :
    C.Kept (Exec.asFunction x) (Exec.asFunction y) := E.toScoped.kept_asFunction h

theorem kept_asMethod (E : C.Nested) (o : Handle) (signature : Signature) {x y : Exec Value}
    (h : C.Kept x y) : C.Kept (Exec.asMethod o signature x) (Exec.asMethod o signature y) :=
  (E.enters o signature).kept_asMethod E.toScoped h

/-- An imported script keeps a contract if its statements do. -/
theorem kept_importSource (E : C.Forks) {ev ev' : Evaluator} (source : String)
    (h : ∀ program, Program.ofSource source = .ok program →
      C.Kept (α := Unit) (runProgram ev program) (runProgram ev' program)) :
    C.Kept (importSource ev source) (importSource ev' source) := by
  intro m hm
  cases hparse : Program.ofSource source with
  | error e =>
    rw [importSource_of_error hparse, importSource_of_error hparse]
    exact ⟨.inr rfl, Moves.refl E.toLawful hm⟩
  | ok program =>
    rw [importSource_of_ok hparse, importSource_of_ok hparse]
    obtain ⟨same, moves⟩ := h program hparse m.forked (E.fork hm)
    have hmerged : ∀ {sub}, C.Moves m.forked sub → C.Moves m (m.merged sub) := by
      intro sub moves
      refine ⟨E.merge hm moves, ?_, rfl⟩
      show ({ m.context with
        level := sub.context.level, inClause := sub.context.inClause } : Context) = m.context
      rw [moves.restored.context]
      rfl
    have hdiscarded : ∀ {sub chained}, chained = m.chained ∨ chained = sub.chained →
        C.Moves m.forked sub → C.Moves m (m.discarded sub chained) :=
      fun hchained moves => ⟨E.discard hchained hm moves, rfl, rfl⟩
    -- if the second run gives up, it drops the script, and the contract allows that as well
    rcases same with ⟨lax, ends⟩ | same
    · rcases hsub : runProgram ev' program m.forked with ⟨_ | _ | _, sub⟩ <;>
        rw [hsub] at ends moves
      · cases ends
      · cases ends
      · exact ⟨.inl ⟨lax, rfl⟩, hdiscarded (.inr rfl) moves⟩
    · rw [same]
      rcases hsub : runProgram ev' program m.forked with ⟨_ | _ | _, sub⟩ <;> rw [hsub] at moves
      · exact ⟨.inr rfl, hmerged moves⟩
      · exact ⟨.inr rfl, hdiscarded (.inl rfl) moves⟩
      · exact ⟨.inr rfl, hdiscarded (.inr rfl) moves⟩

end Nesting

end Contract

end BoxScript
