import BoxScript.Extension
import BoxScript.Node.Parser
import BoxScript.Operator
import BoxScript.Text.Lines

/-!
# The evaluator

`evalNode` is the rule for each kind of node, written against an evaluator for the nodes below it.
`eval` ties the knot with fuel: each level of evaluation and each round of a loop takes one unit.
More fuel changes nothing about an evaluation that has ended, and `plentyOfFuel` is more than any
run can burn.
-/

namespace BoxScript

/-- The path that a node evaluates to. -/
def evalPath (ev : Evaluator) (path : Node) : Exec String := do
  match ← ev path with
  | .str path => return path
  | v => Exec.fail (.pathExpected v.kind)

/-- The text of the file under a path. -/
def readFileText (path : String) : Exec String := fun m =>
  match m.files.readText path with
  | .ok text => ⟨.ok text, m⟩
  | .error fault => ⟨.error (.fileRead path fault), m⟩

/-- Run another script on copies of all tables, then add to the tables what it has on top. When it
fails, the copies are thrown away. Instances are not copied. -/
def importSource (ev : Evaluator) (source : String) : Exec Unit := fun m =>
  match Program.ofSource source with
  | .error e => ⟨.error (.importFailed e.display), m⟩
  | .ok program =>
    let outer := m.context
    let inherited := m.returns.length
    let depth := m.depth
    let chained := m.chained
    let (inner, heap) := outer.fork m.heap
    match runProgram ev program { m with heap := heap, context := inner } with
    | ⟨.ok _, m⟩ =>
      let (context, heap) := outer.merge m.context inherited m.heap
      ⟨.ok (), { m with
        heap := heap, context := context, depth := depth, chained := max chained m.chained }⟩
    | ⟨.error e, m⟩ =>
      ⟨.error (.importFailed e.message),
        { m with context := outer, depth := depth, chained := chained }⟩
    | ⟨.unfinished, m⟩ => ⟨.unfinished, { m with context := outer, depth := depth }⟩

/-- Read a value from the console. -/
def readInput : Exec Value := fun m =>
  match m.console.readValue with
  | (result, console) => Exec.ofExcept result { m with console := console }

/-- Assign to a variable. -/
def assignVariable (name : String) (v : Value) : Exec Unit :=
  Exec.update fun m =>
    let level := m.context.level
    let asParam := m.context.inClause
    m.updateScopes (·.set name v level asParam)

/-- Write a value to the console. -/
def printValue (v : Value) (newline : Bool) : Exec Unit :=
  Exec.update fun m =>
    let text := m.heap.text v
    { m with console := m.console.write (if newline then text ++ "\n" else text) }

/-- The rule for each kind of node. The nodes below it are evaluated by `ev`, and loops run for so
many rounds at most. -/
def evalNode (ev : Evaluator) (fuel : Nat) : Node → Exec Value
  | .int n => pure (.int n)
  | .str s => pure (.str s)
  | .var name => lookupVariable name
  | .assign name value => do
    let v ← ev value
    assignVariable name v
    return .void
  | .binary op left right => do
    let left ← ev left
    let right ← ev right
    Operator.binary op left right
  | .negate operand => do
    let v ← ev operand
    Operator.negate v
  | .print value newline => do
    let v ← ev value
    printValue v newline
    return .void
  | .function routine => do
    Exec.update (·.updateFunctions (·.insert routine.signature routine))
    return .void
  | .call name args => callFunction ev name args
  | .ifElse condition yes no => do
    runIf ev condition yes no
    return .void
  | .whileDo condition body => do
    runWhile ev fuel condition body
    return .void
  | .forDo init condition increment body => do
    runFor ev fuel init condition increment body
    return .void
  | .giveBack none => do
    Exec.update (·.updateReturns (· ++ [.void]))
    return .void
  | .giveBack (some value) => do
    let v ← ev value
    Exec.update (·.updateReturns (· ++ [v]))
    return .void
  | .input => readInput
  | .array items => do
    let items ← evalArgs ev items
    return .array items
  | .index target position => do
    let target ← ev target
    let position ← ev position
    Operator.index target position
  | .extension target name args => callExtension ev target name args
  | .box declaration => do
    registerBox (.ofDecl declaration)
    return .void
  | .create box => do
    let h ← instantiate ev box
    return .object h
  | .field holder field => readField holder field
  | .setField holder field value => do
    writeField ev holder field value
    return .void
  | .method receiver first further => callChain ev receiver first further
  | .raise message => do
    let v ← ev message
    let text ← Exec.look (·.heap.text v)
    Exec.fail (.thrown text)
  | .importScript path => do
    let path ← evalPath ev path
    let source ← readFileText path
    importSource ev source
    return .void
  | .readLines path => do
    let path ← evalPath ev path
    let text ← readFileText path
    return .array ((Text.lines text).map .str)
  | .readText path => do
    let path ← evalPath ev path
    let text ← readFileText path
    return .str text
  | .fileExists path => do
    let path ← evalPath ev path
    let found ← Exec.look (·.files.isFile path)
    return .ofBool found
  | .extend kind box function arity => do
    declareExtension ev kind box function arity
    return .void

/-- Evaluate a node with so much fuel. -/
def eval : Nat → Node → Machine → Outcome Value
  | 0, _, m => ⟨.unfinished, m⟩
  | fuel + 1, node, m => evalNode (eval fuel) fuel node m

/-- More fuel than any run can burn. -/
def plentyOfFuel : Nat := 1000000000000000000

end BoxScript
