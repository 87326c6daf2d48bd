import BoxScript.Machine

/-!
# Blocks and calls

The rules for running blocks, loops and functions. They are written against an evaluator for
single nodes, which is passed in; the evaluator itself is tied together in `BoxScript.Eval`.

A `return` does not leave its block by itself: it pushes a signal, and a block stops when a signal
is pending after one of its statements. The call that runs the block takes one signal off.
-/

namespace BoxScript

/-- An evaluator for single nodes. -/
abbrev Evaluator := Node → Exec Value

/-- The result of `f ()`, computed on a stack of its own, so that deep calls do not run out of the
stack of their caller. -/
def onFreshStack {α : Type} (f : Unit → α) : α := (Task.spawn f).get

@[simp] theorem onFreshStack_eq {α : Type} (f : Unit → α) : onFreshStack f = f () := rfl

/-- How many nested calls share a stack. -/
def callsPerStack : Nat := 256

namespace Exec

/-- A computation that changes to a fresh stack at every so many nested calls. -/
def deepening {α : Type} (body : Exec α) : Exec α := fun m =>
  if m.depth % callsPerStack = 0 then onFreshStack fun _ => body m else body m

/-- Changing the stack changes nothing else. -/
@[simp] theorem deepening_eq {α : Type} (body : Exec α) : deepening body = body := by
  funext m
  simp [deepening]

/-- Run a block one scope level deeper; every way out of it drops the level. -/
def inBlock {α : Type} (body : Exec α) : Exec α := fun m =>
  let outer := m.context.level
  closing body (·.closeTo outer) (m.atLevel (outer + 1))

/-- Run a clause of a `for`, where an assignment binds at the very level of the loop. -/
def asClause {α : Type} (body : Exec α) : Exec α := fun m =>
  let outer := m.context.inClause
  closing body (·.withClause outer) (m.withClause true)

/-- Run something that counts as a call; calls nest only so deep. -/
def asCall {α : Type} (body : Exec α) : Exec α := fun m =>
  if maxCallDepth ≤ m.depth then ⟨.error .stackOverflow, m⟩
  else closing (deepening body) (fun m => { m with depth := m.depth - 1 })
    { m with depth := m.depth + 1 }

end Exec

/-! ## Lists of nodes -/

/-- Evaluate arguments from left to right, behind those that are `done` in reverse. -/
def evalArgsFrom (ev : Evaluator) (done : List Value) : List Node → Machine → Outcome (List Value)
  | [], m => ⟨.ok done.reverse, m⟩
  | arg :: args, m =>
    match ev arg m with
    | ⟨.ok v, m⟩ => evalArgsFrom ev (v :: done) args m
    | ⟨.error e, m⟩ => ⟨.error e, m⟩
    | ⟨.unfinished, m⟩ => ⟨.unfinished, m⟩

/-- Evaluate arguments from left to right. -/
def evalArgs (ev : Evaluator) (args : List Node) : Exec (List Value) := evalArgsFrom ev [] args

/-- Run statements in order until a signal is pending, and say whether one is. -/
def runBlock (ev : Evaluator) : List Node → Machine → Outcome Bool
  | [], m => ⟨.ok false, m⟩
  | node :: nodes, m =>
    match ev node m with
    | ⟨.ok _, m⟩ => if m.pending then ⟨.ok true, m⟩ else runBlock ev nodes m
    | ⟨.error e, m⟩ => ⟨.error e, m⟩
    | ⟨.unfinished, m⟩ => ⟨.unfinished, m⟩

/-- Run the statements of a program. A signal ends the program and is dropped. -/
def runProgram (ev : Evaluator) : List Node → Machine → Outcome Unit
  | [], m => ⟨.ok (), m⟩
  | node :: nodes, m =>
    match ev node m with
    | ⟨.ok _, m⟩ => if m.pending then ⟨.ok (), m.noteSignal.dropSignal⟩ else runProgram ev nodes m
    | ⟨.error e, m⟩ => ⟨.error e, m⟩
    | ⟨.unfinished, m⟩ => ⟨.unfinished, m⟩

/-! ## Conditions and loops -/

/-- Whether a condition holds: its integer is not zero. -/
def holds (ev : Evaluator) (condition : Node) : Exec Bool := do
  let n ← (← ev condition).asInt
  return n != 0

/-- Repeat as long as `test` gives true, until `body` says that a signal is pending. After each
body without a signal comes `step`. The fuel bounds the number of rounds. -/
def repeatWhile (test : Exec Bool) (body : Exec Bool) (step : Exec Unit) :
    Nat → Machine → Outcome Unit
  | 0, m => ⟨.unfinished, m⟩
  | fuel + 1, m =>
    match test m with
    | ⟨.ok false, m⟩ => ⟨.ok (), m⟩
    | ⟨.ok true, m⟩ =>
      match body m with
      | ⟨.ok true, m⟩ => ⟨.ok (), m⟩
      | ⟨.ok false, m⟩ =>
        match step m with
        | ⟨.ok _, m⟩ => repeatWhile test body step fuel m
        | ⟨.error e, m⟩ => ⟨.error e, m⟩
        | ⟨.unfinished, m⟩ => ⟨.unfinished, m⟩
      | ⟨.error e, m⟩ => ⟨.error e, m⟩
      | ⟨.unfinished, m⟩ => ⟨.unfinished, m⟩
    | ⟨.error e, m⟩ => ⟨.error e, m⟩
    | ⟨.unfinished, m⟩ => ⟨.unfinished, m⟩

/-- Run one of two branches, or none, in a block of its own. The condition belongs to the block. -/
def runIf (ev : Evaluator) (condition : Node) (yes : List Node) (no : Option (List Node)) :
    Exec Unit :=
  Exec.inBlock do
    if ← holds ev condition then
      let _ ← runBlock ev yes
    else if let some no := no then
      let _ ← runBlock ev no

/-- Run a loop in a block of its own. -/
def runWhile (ev : Evaluator) (fuel : Nat) (condition : Node) (body : List Node) : Exec Unit :=
  Exec.inBlock (repeatWhile (holds ev condition) (runBlock ev body) (pure ()) fuel)

/-- Run a counting loop in a block of its own. -/
def runFor (ev : Evaluator) (fuel : Nat) (init condition increment : Node) (body : List Node) :
    Exec Unit :=
  let clause (node : Node) : Exec Unit := Exec.asClause do let _ ← ev node
  Exec.inBlock do
    clause init
    repeatWhile (holds ev condition) (runBlock ev body) (clause increment) fuel

/-! ## Functions -/

/-- Bind parameters to arguments at a level. -/
def bindParams (level : Nat) : List String → List Value → Scopes → Scopes
  | param :: params, arg :: args, s => bindParams level params args (s.set param arg level true)
  | _, _, s => s

/-- Bind the arguments at the current level and run the body of a function up to its return. -/
def runBody (ev : Evaluator) (routine : Routine) (args : List Value) : Exec Value := do
  if args.length ≠ routine.params.length then
    Exec.fail (.argumentCount routine.name routine.params.length args.length)
  Exec.update fun m => m.updateScopes (bindParams m.context.level routine.params args)
  if ← runBlock ev routine.body then
    let v ← Exec.look Machine.signal
    Exec.update Machine.dropSignal
    return v
  else
    Exec.fail (.missingReturn routine.name)

/-- Call a function on the current variables, one scope level deeper. -/
def invoke (ev : Evaluator) (routine : Routine) (args : List Value) : Exec Value :=
  Exec.asCall fun m =>
    let outer := m.context
    Exec.closing (runBody ev routine args)
      (fun m => (m.closeTo outer.level).withClause outer.inClause)
      ((m.atLevel (outer.level + 1)).withClause false)

/-- Call the function that a name and a number of arguments stand for. It is looked up before the
arguments are evaluated. -/
def callFunction (ev : Evaluator) (name : String) (args : List Node) : Exec Value := do
  let signature : Signature := ⟨name, args.length⟩
  match ← Exec.look (·.functions.get? signature) with
  | none => Exec.fail (.undefinedFunction signature)
  | some routine =>
    let args ← evalArgs ev args
    invoke ev routine args

end BoxScript
