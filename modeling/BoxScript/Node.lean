import BoxScript.Text.Decimal

/-!
# Programs as trees

A program is a list of nodes. Statements and expressions are nodes alike: every node evaluates to
a value, which for a statement is no value. The bodies of functions, branches and loops are lists
of nodes of their own.
-/

namespace BoxScript

/-- The operators between two operands. -/
inductive BinOp where
  | add | sub | mul | div | mod | pow
  | gt | ge | lt | le | eq | ne
  | and | or
  deriving DecidableEq, Repr

namespace BinOp

/-- The operator as it is written. -/
def symbol : BinOp → String
  | add => "+"
  | sub => "-"
  | mul => "*"
  | div => "/"
  | mod => "%"
  | pow => "**"
  | gt => ">"
  | ge => ">="
  | lt => "<"
  | le => "<="
  | eq => "=="
  | ne => "<>"
  | and => "&&"
  | or => "||"

/-- The operator's name in a printed tree. -/
def name : BinOp → String
  | add => "Add"
  | sub => "Sub"
  | mul => "Mul"
  | div => "Div"
  | mod => "Mod"
  | pow => "Pow"
  | gt => "Gt"
  | ge => "Ge"
  | lt => "Lt"
  | le => "Le"
  | eq => "Eq"
  | ne => "Ne"
  | and => "And"
  | or => "Or"

end BinOp

/-- Who may use a member of a box: everyone, or the box itself only. -/
inductive Access where
  | exposed | guarded
  deriving DecidableEq, Repr

namespace Access

/-- The access in words. -/
def text : Access → String
  | exposed => "Exposed"
  | guarded => "Guarded"

end Access

/-- Where a method call finds its instance: in a variable, or in a new instance of a box. -/
inductive Receiver where
  | named (holder : String)
  | created (box : String)
  deriving DecidableEq, Repr

mutual

/-- A statement or an expression. -/
inductive Node where
  | int (n : Int64)
  | str (s : String)
  | var (name : String)
  | assign (name : String) (value : Node)
  | binary (op : BinOp) (left right : Node)
  | negate (operand : Node)
  | print (value : Node) (newline : Bool)
  | function (routine : Routine)
  | call (name : String) (args : List Node)
  | ifElse (condition : Node) (yes : List Node) (no : Option (List Node))
  | whileDo (condition : Node) (body : List Node)
  | forDo (init condition increment : Node) (body : List Node)
  | giveBack (value : Option Node)
  | input
  | array (items : List Node)
  | index (target position : Node)
  | extension (target : Node) (name : String) (args : List Node)
  | box (declaration : BoxDecl)
  | create (box : String)
  | field (holder field : String)
  | setField (holder field : String) (value : Node)
  /-- Calls in a row: the first one on the receiver, each further one on the result before it. -/
  | method (receiver : Receiver) (first : Invocation) (further : List Invocation)
  | raise (message : Node)
  | importScript (path : Node)
  | readLines (path : Node)
  | readText (path : Node)
  | fileExists (path : Node)
  | extend (kind box function arity : Node)

/-- A named body with parameters: a function of the program or of a box. -/
structure Routine where
  name : String
  params : List String
  body : List Node

/-- The name and the arguments of one method call. -/
structure Invocation where
  name : String
  args : List Node

/-- A field as a box declares it. -/
structure FieldDecl where
  name : String
  init : Node
  access : Access

/-- A function as a box declares it. An abstract one has no body. -/
structure MethodDecl where
  routine : Routine
  access : Access
  isAbstract : Bool

/-- A box as the program declares it. -/
structure BoxDecl where
  name : String
  base : Option String
  isAbstract : Bool
  isConst : Bool
  fields : List FieldDecl
  methods : List MethodDecl

end

instance : Inhabited Node := ⟨.input⟩
instance : Inhabited Routine := ⟨⟨"", [], []⟩⟩

/-- A program: its statements in order. -/
abbrev Program := List Node

namespace Node

/-- The kind of a node in words. -/
def label : Node → String
  | int .. => "int"
  | str .. => "string"
  | var .. => "variable"
  | assign .. => "assign"
  | binary .. => "binary"
  | negate .. => "negate"
  | print .. => "print"
  | function .. => "function"
  | call .. => "call"
  | ifElse .. => "if"
  | whileDo .. => "while"
  | forDo .. => "for"
  | giveBack .. => "return"
  | input => "input"
  | array .. => "array"
  | index .. => "index"
  | extension .. => "extension"
  | box .. => "refbox"
  | create .. => "create"
  | field .. => "field access"
  | setField .. => "field assign"
  | method .. => "method call"
  | raise .. => "throw"
  | importScript .. => "import"
  | readLines .. => "readFile"
  | readText .. => "readWholeFile"
  | fileExists .. => "fileExists"
  | extend .. => "extension declaration"

end Node
end BoxScript
