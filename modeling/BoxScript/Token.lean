import BoxScript.Text.Decimal
import BoxScript.Text.Quoted

/-!
# Tokens

The words and signs that a source text is made of. Each token has a spelling, which diagnostics
show, and each kind of token has a name, which the listing of a file's tokens shows.
-/

namespace BoxScript

/-- The reserved words. -/
inductive Keyword where
  | print | printInline | ifThen | otherwise | function | giveBack | whileDo | forDo | endBlock
  | input | void | raise | importScript | extension
  | refbox | create | exposed | guarded | abstract | const
  | readFile | readWholeFile | fileExists
  deriving DecidableEq, Repr

namespace Keyword

/-- The word itself. Of the two words for no value, the first one. -/
def spelling : Keyword → String
  | print => "print"
  | printInline => "printInline"
  | ifThen => "if"
  | otherwise => "else"
  | function => "function"
  | giveBack => "return"
  | whileDo => "while"
  | forDo => "for"
  | endBlock => "end"
  | input => "input"
  | void => "void"
  | raise => "throw"
  | importScript => "import"
  | extension => "extension"
  | refbox => "refbox"
  | create => "create"
  | exposed => "exposed"
  | guarded => "guarded"
  | abstract => "abstract"
  | const => "const"
  | readFile => "readFile"
  | readWholeFile => "readWholeFile"
  | fileExists => "fileExists"

/-- The keyword that a word is, if it is reserved. -/
def ofWord? : String → Option Keyword
  | "print" => some print
  | "printInline" => some printInline
  | "if" => some ifThen
  | "else" => some otherwise
  | "function" => some function
  | "return" => some giveBack
  | "while" => some whileDo
  | "for" => some forDo
  | "end" => some endBlock
  | "input" => some input
  | "void" => some void
  | "wuwei" => some void
  | "throw" => some raise
  | "import" => some importScript
  | "extension" => some extension
  | "refbox" => some refbox
  | "create" => some create
  | "exposed" => some exposed
  | "guarded" => some guarded
  | "abstract" => some abstract
  | "const" => some const
  | "readFile" => some readFile
  | "readWholeFile" => some readWholeFile
  | "fileExists" => some fileExists
  | _ => none

/-- Reading a keyword's spelling gives the keyword back. -/
theorem ofWord?_spelling (k : Keyword) : ofWord? k.spelling = some k := by
  cases k <;> rfl

/-- The name of the keyword in a token listing. -/
def name : Keyword → String
  | print => "Print"
  | printInline => "PrintInline"
  | ifThen => "If"
  | otherwise => "Else"
  | function => "Function"
  | giveBack => "Return"
  | whileDo => "While"
  | forDo => "For"
  | endBlock => "End"
  | input => "Input"
  | void => "Void"
  | raise => "Throw"
  | importScript => "Import"
  | extension => "Extension"
  | refbox => "RefBox"
  | create => "Create"
  | exposed => "Exposed"
  | guarded => "Guarded"
  | abstract => "Abstract"
  | const => "Const"
  | readFile => "ReadFile"
  | readWholeFile => "ReadWholeFile"
  | fileExists => "FileExists"

end Keyword

/-- Operators and punctuation. -/
inductive Sign where
  | plus | minus | starStar | star | slash | percent
  | eqEq | notEq | ltEq | gtEq | lt | gt | andAnd | orOr | eq
  | lParen | rParen | lBracket | rBracket | comma | semi | colon | dot
  deriving DecidableEq, Repr

namespace Sign

/-- The sign as it is written. -/
def spelling : Sign → String
  | plus => "+"
  | minus => "-"
  | starStar => "**"
  | star => "*"
  | slash => "/"
  | percent => "%"
  | eqEq => "=="
  | notEq => "<>"
  | ltEq => "<="
  | gtEq => ">="
  | lt => "<"
  | gt => ">"
  | andAnd => "&&"
  | orOr => "||"
  | eq => "="
  | lParen => "("
  | rParen => ")"
  | lBracket => "["
  | rBracket => "]"
  | comma => ","
  | semi => ";"
  | colon => ":"
  | dot => "."

/-- The name of the sign in a token listing. -/
def name : Sign → String
  | plus => "Plus"
  | minus => "Minus"
  | starStar => "StarStar"
  | star => "Star"
  | slash => "Slash"
  | percent => "Percent"
  | eqEq => "EqEq"
  | notEq => "NotEq"
  | ltEq => "LtEq"
  | gtEq => "GtEq"
  | lt => "Lt"
  | gt => "Gt"
  | andAnd => "AndAnd"
  | orOr => "OrOr"
  | eq => "Eq"
  | lParen => "LParen"
  | rParen => "RParen"
  | lBracket => "LBracket"
  | rBracket => "RBracket"
  | comma => "Comma"
  | semi => "Semi"
  | colon => "Colon"
  | dot => "Dot"

end Sign

/-- One token of a source text. -/
inductive Token where
  | keyword (k : Keyword)
  | sign (s : Sign)
  | int (n : Int64)
  | str (content : String)
  | ident (name : String)
  deriving DecidableEq, Repr

namespace Token

/-- The token as diagnostics show it: a string stands between quotes, its content verbatim. -/
def text : Token → String
  | keyword k => k.spelling
  | sign s => s.spelling
  | int n => Text.showInt n
  | str content => "\"" ++ content ++ "\""
  | ident name => name

/-- The name of the token's kind. -/
def kind : Token → String
  | keyword k => k.name
  | sign s => s.name
  | int _ => "IntLit"
  | str _ => "StringLit"
  | ident _ => "Ident"

/-- The token as a token listing shows it: its kind, then what it carries. -/
def listing : Token → String
  | int n => "IntLit(" ++ Text.showInt n ++ ")"
  | str content => "StringLit(" ++ Text.quote content ++ ")"
  | ident name => "Ident(" ++ Text.quote name ++ ")"
  | t => t.kind

/-- The token that a word is: reserved, or a name. -/
def ofWord (word : String) : Token :=
  match Keyword.ofWord? word with
  | some k => keyword k
  | none => ident word

end Token
end BoxScript
