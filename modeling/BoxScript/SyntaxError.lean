import BoxScript.Span
import BoxScript.Token

/-!
# Errors of a source text

A text can fail in two ways: some of its characters are no token, or its tokens are no program.
Either way the error says what is wrong and where.
-/

namespace BoxScript

/-- What a reader of tokens looks for when it meets something else. -/
inductive Wanted where
  | token (t : Token)
  | functionName | parameterName | boxName | baseName | fieldName | extensionName | memberName
  | statement | blockEnd | bodyEnd | expression
  deriving DecidableEq, Repr

namespace Wanted

/-- The wanted thing, as it follows the token that was met. -/
def text : Wanted → String
  | token t => "(expected '" ++ t.text ++ "')"
  | functionName => "(expected function name)"
  | parameterName => "(expected parameter name)"
  | boxName => "(expected refbox name)"
  | baseName => "(expected base refbox name)"
  | fieldName => "(expected field name)"
  | extensionName => "(expected extension name)"
  | memberName => "(expected member name)"
  | statement => "(expected a statement)"
  | blockEnd => "(expected 'end')"
  | bodyEnd => "in function body (expected 'return' or 'end')"
  | expression => "(expected an expression)"

end Wanted

/-- What is wrong with a source text. -/
inductive SyntaxFault where
  /-- Characters that start no token. -/
  | unreadable (slice : String)
  /-- A token, or the end of the text, where something else has to stand. -/
  | unexpected (found : Option Token) (wanted : Wanted)
  /-- A field is read from something that is no variable. -/
  | fieldOfNoVariable
  /-- A method is called on something that holds no instance. -/
  | methodOfNoInstance
  /-- A field is declared abstract. -/
  | abstractField
  deriving DecidableEq, Repr

namespace SyntaxFault

/-- The stage that finds the fault. -/
def stage : SyntaxFault → String
  | unreadable _ => "Lexer"
  | _ => "Parser"

/-- The fault in words. -/
def message : SyntaxFault → String
  | unreadable slice => "unexpected character: " ++ Text.quote slice
  | unexpected (some t) wanted => "unexpected '" ++ t.text ++ "' " ++ wanted.text
  | unexpected none wanted => "unexpected end of input " ++ wanted.text
  | fieldOfNoVariable => "field access requires an instance variable"
  | methodOfNoInstance => "method call requires a refbox instance"
  | abstractField => "only refbox functions can be abstract"

end SyntaxFault

/-- A fault and where it stands. -/
structure SyntaxError where
  fault : SyntaxFault
  span : Span
  deriving DecidableEq, Repr

namespace SyntaxError

/-- The error in words. -/
def message (e : SyntaxError) : String := e.fault.message

/-- The error with its stage and its place, on one line. -/
def display (e : SyntaxError) : String :=
  e.fault.stage ++ " error at " ++ e.span.text ++ ": " ++ e.message

end SyntaxError
end BoxScript
