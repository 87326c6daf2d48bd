import BoxScript.Call
import BoxScript.Extension.Builtin
import BoxScript.Method

/-!
# Extensions

An extension is called on a value by name, whatever the case of the name. A program can add
extensions for a kind of value: functions of const boxes that take the value as their first
argument. They come before the built-in ones.
-/

namespace BoxScript

/-! ## Built-in extensions of instances -/

/-- Whether guarded slots count, by an argument that may be missing. -/
def guardedFlag (name : String) (default : Bool) : Option Value → Except RuntimeError Bool
  | none => .ok default
  | some v => do return (← Builtin.intArg name v) != 0

/-- An extension of an instance. -/
def ofInstance (name : String) (h : Handle) (args : List Value) : Exec (Option Value) := do
  match name, args with
  | "isinstanceof", [box] =>
    let box ← Builtin.strArg name box
    let d ← boxNamed box
    let i ← Exec.look (·.instanceAt h)
    return some (.ofBool (i.fits d))
  | "isinstanceof", _ => Exec.fail (.extensionArity name [1] args.length)
  | "hasfield", field :: flag =>
    Builtin.expectArgs name args [1, 2]
    let field ← Builtin.strArg name field
    let guardedToo ← guardedFlag name false flag.head?
    let i ← Exec.look (·.instanceAt h)
    return some (.ofBool ((i.fieldNames guardedToo).contains field))
  | "hasfield", [] => Exec.fail (.extensionArity name [1, 2] 0)
  | "hasfunction", function :: arity :: flag =>
    Builtin.expectArgs name args [2, 3]
    let function ← Builtin.strArg name function
    let arity ← Builtin.intArg name arity
    let guardedToo ← guardedFlag name true flag.head?
    let i ← Exec.look (·.instanceAt h)
    return some (.ofBool ((i.signatures guardedToo).any fun s =>
      s.name == function && (s.arity : Int) == arity.toInt))
  | "hasfunction", _ => Exec.fail (.extensionArity name [2, 3] args.length)
  | "reflectionsetfield", [field, value] =>
    let field ← Builtin.strArg name field
    let i ← Exec.look (·.instanceAt h)
    if (i.field? field).isNone then Exec.fail (.noFieldToSet field)
    Exec.update (·.updateInstance h (·.setField field value))
    return some .void
  | "reflectionsetfield", _ => Exec.fail (.extensionArity name [2] args.length)
  | _, _ => return none

/-! ## Calls -/

/-- A built-in extension of a value. -/
def callBuiltin (name : String) (receiver : Value) (args : List Value) : Exec Value := do
  let answer ← match receiver with
    | .array items => do
      let heap ← Exec.look (·.heap)
      Builtin.ofArray heap.text name items args
    | .str s => Builtin.ofString name s args
    | .int n => Builtin.ofInt name n args
    | .object h => ofInstance name h args
    | .void => pure none
  match answer with
  | some v => return v
  | none => Exec.fail (.extensionNotFound name)

/-- The extension that the program declared under a name, if it is for this value and takes so
many arguments. -/
def declaredFor? (name : String) (receiver : Value) (arity : Nat) (m : Machine) :
    Option Extension :=
  (m.extensions.get? name).filter fun e => e.kind = receiver.kind && e.arity = arity

/-- Call an extension. On no value every extension gives no value, and the type of a value is
known without looking at the arguments. -/
def callExtension (ev : Evaluator) (target : Node) (name : String) (args : List Node) :
    Exec Value := do
  let receiver ← ev target
  if receiver.isVoid then return .void
  let name := Text.toLower name
  if name = "type" then return .str receiver.kind.text
  match ← Exec.look (declaredFor? name receiver args.length) with
  | some e =>
    let args ← evalArgs ev args
    invoke ev e.routine (receiver :: args)
  | none =>
    let args ← evalArgs ev args
    callBuiltin name receiver args

/-! ## Declarations -/

/-- The function of a definition that may become an extension. -/
def extensionRoutine (d : BoxDef) (box function : String) (arity : Int64) :
    Except RuntimeError Routine := do
  if !d.isConst then throw (.extensionBoxNotConst box)
  if d.isAbstract then throw (.extensionBoxAbstract box)
  match d.methods.find? fun m =>
      m.routine.name == function && (m.routine.params.length : Int) == arity.toInt with
  | none => throw (.extensionFunctionMissing function arity box)
  | some m =>
    if m.access = .guarded then throw (.extensionFunctionGuarded function)
    return m.routine

/-- Declare a function of a const box to be an extension. -/
def declareExtension (ev : Evaluator) (kind box function arity : Node) : Exec Unit := do
  let kind ← ev kind
  let box ← ev box
  let function ← ev function
  let arity ← ev arity
  match kind, box, function, arity with
  | .str kindName, .str box, .str function, .int arity =>
    if arity < 1 then Exec.fail .extensionWithoutReceiver
    match Kind.ofName? kindName with
    | none => Exec.fail (.extensionKind kindName)
    | some kind =>
      let d ← boxNamed box
      let routine ← extensionRoutine d box function arity
      Exec.update (·.updateExtensions (·.insert (Text.toLower function) ⟨kind, routine⟩))
  | _, _, _, _ => Exec.fail .extensionOperands

end BoxScript
