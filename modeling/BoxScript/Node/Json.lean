import BoxScript.Json
import BoxScript.Node

/-!
# Trees as JSON

A node is an object with one key, its kind, and the parts of the node below it. A node that has no
parts is the name of its kind alone. Calls in a row are nested, the last one outermost.
-/

namespace BoxScript

/-- A text, or null where there is none. -/
def Json.ofOptionText : Option String → Json
  | none => .null
  | some s => .str s

/-- A list of texts. -/
def Json.ofTexts (texts : List String) : Json := .arr (texts.map .str)

/-- Where a chain of calls starts, as JSON. -/
def Receiver.toJson : Receiver → Json
  | .named holder => .obj [("Named", .str holder)]
  | .created box => .obj [("Anonymous", .str box)]

mutual

/-- A node as JSON. -/
def Node.toJson : Node → Json
  | .int n => .obj [("Int", .int n.toInt)]
  | .str s => .obj [("Str", .str s)]
  | .var name => .obj [("Variable", .str name)]
  | .assign name value => .obj [("Assign", .obj [("name", .str name), ("value", value.toJson)])]
  | .binary op left right =>
    .obj [("Binary",
      .obj [("op", .str op.name), ("left", left.toJson), ("right", right.toJson)])]
  | .negate operand => .obj [("Negate", operand.toJson)]
  | .print value newline =>
    .obj [("Print", .obj [("value", value.toJson), ("newline", .bool newline)])]
  | .function routine => .obj [("Function", routine.toJson)]
  | .call name args =>
    .obj [("Call", .obj [("name", .str name), ("args", .arr (nodesToJson args))])]
  | .ifElse condition yes no =>
    .obj [("If", .obj [("condition", condition.toJson), ("then_branch", .arr (nodesToJson yes)),
      ("else_branch", match no with
        | none => .null
        | some no => .arr (nodesToJson no))])]
  | .whileDo condition body =>
    .obj [("While", .obj [("condition", condition.toJson), ("body", .arr (nodesToJson body))])]
  | .forDo init condition increment body =>
    .obj [("For", .obj [("init", init.toJson), ("condition", condition.toJson),
      ("increment", increment.toJson), ("body", .arr (nodesToJson body))])]
  | .giveBack value =>
    .obj [("Return", match value with
      | none => .null
      | some value => value.toJson)]
  | .input => .str "Input"
  | .array items => .obj [("Array", .arr (nodesToJson items))]
  | .index target position =>
    .obj [("Index", .obj [("target", target.toJson), ("index", position.toJson)])]
  | .extension target name args =>
    .obj [("Extension", .obj [("target", target.toJson), ("name", .str name),
      ("args", .arr (nodesToJson args))])]
  | .box declaration => .obj [("RefBox", declaration.toJson)]
  | .create box => .obj [("Create", .str box)]
  | .field holder field =>
    .obj [("FieldAccess", .obj [("instance", .str holder), ("field", .str field)])]
  | .setField holder field value =>
    .obj [("FieldAssign", .obj [("instance", .str holder), ("field", .str field),
      ("value", value.toJson)])]
  | .method receiver first further =>
    .obj [("MethodCall", chainToJson (first.toJson receiver.toJson) further)]
  | .raise message => .obj [("Throw", message.toJson)]
  | .importScript path => .obj [("Import", path.toJson)]
  | .readLines path => .obj [("ReadLines", path.toJson)]
  | .readText path => .obj [("ReadText", path.toJson)]
  | .fileExists path => .obj [("FileExists", path.toJson)]
  | .extend kind box function arity =>
    .obj [("ExtensionDecl", .obj [("kind", kind.toJson), ("refbox", box.toJson),
      ("function", function.toJson), ("arity", arity.toJson)])]

/-- Nodes in order. -/
def nodesToJson : List Node → List Json
  | [] => []
  | node :: nodes => node.toJson :: nodesToJson nodes

/-- A function as JSON. -/
def Routine.toJson : Routine → Json
  | ⟨name, params, body⟩ =>
    .obj [("name", .str name), ("params", .ofTexts params), ("body", .arr (nodesToJson body))]

/-- One call on a receiver that is already JSON. -/
def Invocation.toJson (receiver : Json) : Invocation → Json
  | ⟨name, args⟩ =>
    .obj [("receiver", receiver), ("name", .str name), ("args", .arr (nodesToJson args))]

/-- Further calls in a row around the one before them. -/
def chainToJson (previous : Json) : List Invocation → Json
  | [] => previous
  | call :: calls => chainToJson (call.toJson (.obj [("Chained", previous)])) calls

/-- A field of a box as JSON. -/
def FieldDecl.toJson : FieldDecl → Json
  | ⟨name, init, access⟩ =>
    .obj [("name", .str name), ("init", init.toJson), ("access", .str access.text)]

/-- Fields in order. -/
def fieldsToJson : List FieldDecl → List Json
  | [] => []
  | field :: fields => field.toJson :: fieldsToJson fields

/-- A function of a box as JSON. -/
def MethodDecl.toJson : MethodDecl → Json
  | ⟨routine, access, isAbstract⟩ =>
    .obj [("function", routine.toJson), ("access", .str access.text),
      ("is_abstract", .bool isAbstract)]

/-- Functions of a box in order. -/
def methodsToJson : List MethodDecl → List Json
  | [] => []
  | method :: methods => method.toJson :: methodsToJson methods

/-- A box as JSON. -/
def BoxDecl.toJson : BoxDecl → Json
  | ⟨name, base, isAbstract, isConst, fields, methods⟩ =>
    .obj [("name", .str name), ("base", .ofOptionText base), ("is_abstract", .bool isAbstract),
      ("is_const", .bool isConst), ("fields", .arr (fieldsToJson fields)),
      ("functions", .arr (methodsToJson methods))]

end

/-- A program as JSON. -/
def Program.toJson (program : Program) : Json := .obj [("body", .arr (nodesToJson program))]

end BoxScript
