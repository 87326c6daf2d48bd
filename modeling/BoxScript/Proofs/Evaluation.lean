import BoxScript.Proofs.Tracking

/-!
# Contracts of the evaluator

Most contracts do not care which values there are. `Contract.Steps` and `Contract.Rules` are the
obligations of such a contract: each kind of step is to be allowed for all values and instances.
Then the contract is kept by the rule for every node in its scope, from any machine in the invariant
(`Rules.meets_evalNode`). `Contract.Frames` is the same for contracts about all nodes and all
methods (`Frames.kept_evalNode`).

So a property of all runs is proved by one obligation for each kind of step. The evaluator is gone
through in `BoxScript.Proofs.Tracking`, and what is said there of contracts that follow values is
read here with no values left out.
-/

namespace BoxScript
namespace Contract

variable {C : Contract} {N S : Node → Prop} {R : Routine → Prop}

/-- The steps that direct no run are allowed, for code whose expressions are in `N` and whose
routines are in `R`. -/
structure Steps (C : Contract) (N : Node → Prop) (R : Routine → Prop) : Prop extends Lawful C where
  code : ∀ {m}, C.inv m → m.CodeIn N R
  console : ∀ {m} {c : Console}, m.console.Proceeds c → C.inv m → C.Allows m { m with console := c }
  /-- An assignment comes after the evaluation of its value. -/
  assign : ∀ {m m' name} (value : Node) (v : Value), C.scope (.assign name value) m →
    C.Moves m m' →
    C.Allows m' (m'.updateScopes (·.set name v m'.context.level m'.context.inClause))
  declare : ∀ {m} {routine : Routine}, C.scope (.function routine) m → R routine → C.inv m →
    C.Allows m (m.updateFunctions (·.insert routine.signature routine))
  register : ∀ {m declaration} {whole : BoxDef}, C.scope (.box declaration) m →
    m.Accepts (.ofDecl declaration) whole → whole.In N R → C.inv m →
    C.Allows m (m.updateBoxesAt m.context.boxes (·.insert whole.name whole))
  extend : ∀ {m} (name : String) {e : Extension}, e.Declared R → C.inv m →
    C.Allows m (m.updateExtensions (·.insert name e))
  /-- A definition is looked up before the fields of a new instance are evaluated. -/
  allocate : ∀ {m m' name} {d : BoxDef} {fields : List Slot}, C.inv m →
    m.boxes.get? name = some d → d.In N R → FieldSlots fields d.fields → C.inv m' →
    C.Allows m' (allocate d fields m').machine
  setField : ∀ {m} (h : Handle) (field : String) (v : Value), C.inv m →
    C.Allows m (m.updateInstance h (·.setField field v))
  linkIn : ∀ {m} (h : Handle), C.inv m → C.inv (m.linked h)
  linkOut : ∀ {m m'} (h : Handle), C.inv m → C.Moves (m.linked h) m' →
    C.Allows m (dropBox m.context.boxes (chainName m.chained) m')
  linkRefused : ∀ {m}, C.inv m → C.Allows m
    (dropBox m.context.boxes (chainName m.chained) { m with chained := m.chained + 1 })

/-- What an evaluation of simple nodes takes for granted of the evaluators that it is given. -/
structure Given (C : Contract) (N : Node → Prop) (R : Routine → Prop) (ev ev' : Evaluator) :
    Prop extends Callable C where
  ask : ∀ {node}, N node → C.Kept (ev node) (ev' node)
  invoke : ∀ {routine} (args : List Value), R routine →
    C.Kept (invoke ev routine args) (invoke ev' routine args)
  method : ∀ (h : Handle) {routine} (args : List Value), C.calls h routine.signature →
    R routine → C.Kept (runMethod ev h routine args) (runMethod ev' h routine args)
  importing : ∀ {m path source}, C.inv m → m.files.readText path = .ok source →
    C.Kept (importSource ev source) (importSource ev' source)

/-- All steps but those into methods are allowed, for code in a fragment. -/
structure Ground (C : Contract) (N S : Node → Prop) : Prop
    extends Steps C N (Routine.BodyIn S), Scoped C where
  fragment : Fragment N S
  scripts : ∀ {m}, C.inv m → m.ScriptsIn S
  push : ∀ {m} (v : Value), C.inv m → C.Allows m (m.updateReturns (· ++ [v]))
  dropSignal : ∀ {m}, C.inv m → C.Allows m m.dropSignal
  bindParams : ∀ {m} (params : List String) (args : List Value), C.inv m →
    C.Allows m (m.updateScopes (bindParams m.context.level params args))

/-- All steps are allowed that a run in the scope of the contract takes. -/
structure Rules (C : Contract) (N S : Node → Prop) : Prop extends Ground C N S, Callable C where
  enters : ∀ {h signature}, C.calls h signature → C.Enters h signature

/-- All steps are allowed, and all nodes and methods are in scope. -/
structure Frames (C : Contract) (N S : Node → Prop) : Prop extends Ground C N S, Nested C where
  everywhere : (∀ node m, C.scope node m) ∧ ∀ h signature, C.calls h signature

/-- What all steps keep, they keep under rules for each call. -/
theorem Frames.rules (F : C.Frames N S) : C.Rules N S :=
  { F.toGround, callable_of_all F.everywhere.2 with enters := fun _ => F.toNested.enters _ _ }


/-! ## All values -/

/-- The contract as one that follows values and leaves none out. -/
def plain (C : Contract) : Tracked where
  toContract := C
  holds _ := True
  writes _ := True

/-- Every value is clean where no handles are kept away. -/
theorem clean_plain (v : Value) : C.plain.Clean v := Value.within_of_all (fun _ => trivial) v

theorem Kept.plain {x y : Exec Value} (h : C.Kept x y) : C.plain.Yields C.plain.Clean x y :=
  fun m hm => ⟨h m hm, fun _ => clean_plain _⟩

theorem readings_plain (C : Contract) : C.plain.Readings where
  variable_ _ _ := clean_plain _
  field _ _ _ := clean_plain _
  fixed _ _ _ _ := clean_plain _
  created _ := trivial
  signal _ := clean_plain _

theorem writable_plain (C : Contract) (ev : Evaluator) : C.plain.Writable ev where
  assigned _ _ _ := trivial
  reflected _ _ _ _ _ := trivial

theorem Steps.plain (S : C.Steps N R) : C.plain.Steps N R where
  toLawful := S.toLawful
  code := S.code
  console := S.console
  assign value _ := S.assign value _
  declare := S.declare
  register := S.register
  extend := S.extend
  allocate hm hknown hd hfields _ := S.allocate hm hknown hd hfields
  setField field _ _ := S.setField _ field _
  linkIn _ := S.linkIn _
  linkOut _ := S.linkOut _
  linkRefused := S.linkRefused

theorem Ground.plain (F : C.Ground N S) : C.plain.Ground N S :=
  { F.toSteps.plain, F.toScoped, readings_plain C with
    fragment := F.fragment
    scripts := F.scripts
    push := fun _ => F.push _
    dropSignal := F.dropSignal
    bindParams := fun params _ => F.bindParams params _ }

theorem Rules.plain (F : C.Rules N S) : C.plain.Rules N S where
  toGround := F.toGround.plain
  toCallable := F.toCallable
  enters := F.enters

section Wholes

variable {ev ev' : Evaluator}

/-- What is given of two evaluators is given of them in the plain tracking. -/
theorem Given.plain (G : C.Given N R ev ev') : C.plain.Given N R ev ev' where
  toCallable := G.toCallable
  toReadings := readings_plain C
  toWritable := writable_plain C ev'
  ask hn := (G.ask hn).plain
  invoke _ hr := (G.invoke _ hr).plain
  method hcalls _ hr := (G.method _ _ hcalls hr).plain
  importing := G.importing

theorem kept_instantiate (S : C.Steps N R) (G : C.Given N R ev ev') (name : String) :
    C.Kept (instantiate ev name) (instantiate ev' name) :=
  (Tracked.yields_instantiate S.plain G.plain name).kept

/-- Calling a function of an instance keeps one that allows such a call. -/
theorem kept_callMethod (S : C.Steps N R) (G : C.Given N R ev ev') {h : Handle}
    {call : Invocation} (hcalls : C.calls h call.signature) (hargs : ∀ a ∈ call.args, N a) :
    C.Kept (callMethod ev h call) (callMethod ev' h call) :=
  (Tracked.yields_callMethod S.plain G.plain hcalls hargs).kept

/-- A further call in a row, if the calls after it keep the contract in the context of the row. -/
theorem meets_linkFrom (S : C.Steps N R) (G : C.Given N R ev ev') {table : Handle} (name : String)
    {call : Invocation} {calls : List Invocation} (hargs : ∀ a ∈ call.args, N a)
    (hrest : ∀ v m, C.inv m → m.context.boxes = table →
      C.Meets m (chainFrom ev table v calls m) (chainFrom ev' table v calls m))
    {m : Machine} (hm : C.inv m) (htable : m.context.boxes = table) :
    C.Meets m (linkFrom ev table name call calls m) (linkFrom ev' table name call calls m) :=
  (Tracked.gives_linkFrom S.plain G.plain name hargs
    (fun v m _ hm htable => ⟨hrest v m hm htable, fun _ => clean_plain _⟩) hm htable).toMeets

/-- The further calls in a row, in the context in which the row began. -/
theorem meets_chainFrom (S : C.Steps N R) (G : C.Given N R ev ev') {table : Handle}
    {calls : List Invocation} (hargs : ∀ c ∈ calls, ∀ a ∈ c.args, N a) (previous : Value)
    {m : Machine} (hm : C.inv m) (htable : m.context.boxes = table) :
    C.Meets m (chainFrom ev table previous calls m) (chainFrom ev' table previous calls m) :=
  (Tracked.gives_chainFrom S.plain G.plain hargs (clean_plain previous) hm htable).toMeets

/-- **The rules for simple nodes keep a contract that allows the simple steps.** -/
theorem meets_evalNode (S : C.Steps N R) (G : C.Given N R ev ev') {node : Node}
    (hparts : node.Parts N R) (hsimple : node.isControl = false) (fuel : Nat) {m : Machine}
    (hm : C.inv m) (hscope : C.scope node m) :
    C.Meets m (evalNode ev fuel node m) (evalNode ev' fuel node m) :=
  (Tracked.gives_evalNode S.plain G.plain hparts hsimple fuel hm hscope).toMeets

/-- Taking the signal at the end of a body is one of two steps. -/
theorem kept_takeSignal (F : C.Ground N S) (routine : Routine) (returned : Bool) :
    C.Kept (takeSignal routine returned) (takeSignal routine returned) :=
  (Tracked.yields_takeSignal F.plain routine returned).kept

theorem kept_runBody (F : C.Ground N S) {routine : Routine}
    (h : ∀ node ∈ routine.body, C.Kept (ev node) (ev' node)) (args : List Value) :
    C.Kept (runBody ev routine args) (runBody ev' routine args) :=
  (Tracked.yields_runBody F.plain h fun v _ => clean_plain v).kept

theorem kept_runProgram (F : C.Ground N S) {program : Program}
    (h : ∀ node ∈ program, C.Kept (ev node) (ev' node)) :
    C.Kept (α := Unit) (runProgram ev program) (runProgram ev' program) :=
  Tracked.kept_runProgram F.plain.toSteps F.plain.dropSignal h

/-- What the rules for simple nodes take for granted holds of evaluators that keep the contract. -/
theorem Rules.given (F : C.Rules N S) (h : ∀ node, S node → C.Kept (ev node) (ev' node)) :
    C.Given N (Routine.BodyIn S) ev ev' where
  toCallable := F.toCallable
  ask hn := h _ (F.fragment.expression hn)
  invoke args hr :=
    F.toScoped.kept_asFunction (kept_runBody F.toGround (fun n hn => h n (hr n hn)) args)
  method _ _ args hcalls hr := (F.enters hcalls).kept_asMethod F.toScoped
    (kept_runBody F.toGround (fun n hn => h n (hr n hn)) args)
  importing hm hsource := kept_importSource F.toForks _ fun _ hparse =>
    kept_runProgram F.toGround fun n hn => h n (F.scripts hm hsource hparse n hn)

/-- **The rule for every node in scope keeps a contract that allows all steps.** -/
theorem Rules.meets_evalNode (F : C.Rules N S) (h : ∀ node, S node → C.Kept (ev node) (ev' node))
    {node : Node} (hnode : S node) (fuel : Nat) {m : Machine} (hm : C.inv m)
    (hscope : C.scope node m) : C.Meets m (evalNode ev fuel node m) (evalNode ev' fuel node m) :=
  (Tracked.Rules.gives_evalNode F.plain (writable_plain C ev') (fun n hn => (h n hn).plain) hnode
    fuel hm hscope).toMeets

theorem Frames.kept_evalNode (F : C.Frames N S) (h : ∀ node, S node → C.Kept (ev node) (ev' node))
    {node : Node} (hnode : S node) (fuel : Nat) :
    C.Kept (evalNode ev fuel node) (evalNode ev' fuel node) :=
  fun m hm => F.rules.meets_evalNode h hnode fuel hm (F.everywhere.1 node m)

end Wholes
end Contract
end BoxScript
