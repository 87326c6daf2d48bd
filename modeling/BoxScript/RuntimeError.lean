import BoxScript.Files
import BoxScript.Kind
import BoxScript.Node

/-!
# Errors of a running program

An error is its cause. Each cause has a kind, by which programs that use the interpreter tell
errors apart, and a message for the reader.
-/

namespace BoxScript

/-- The name and the number of parameters by which a function is found. -/
structure Signature where
  name : String
  arity : Nat
  deriving DecidableEq, Repr

namespace Signature

/-- A signature as listings show it. -/
def text (s : Signature) : String := s.name ++ "/" ++ toString s.arity

/-- Signatures are listed by name, then by number of parameters. -/
def le (a b : Signature) : Bool := a.name < b.name || (a.name == b.name && a.arity ≤ b.arity)

end Signature

/-- The signature of a function. -/
def Routine.signature (r : Routine) : Signature := ⟨r.name, r.params.length⟩

/-- The families of errors. -/
inductive ErrorKind where
  | undefinedVariable | undefinedFunction | typeMismatch | missingValue | unknownOperator
  | argumentError | missingReturn | accessDenied | definitionError | extensionNotFound
  | invalidPath | fileReadError | importExecutionError | userThrown | arithmetic
  | stackOverflow | io
  deriving DecidableEq, Repr

/-- The largest nesting of calls. -/
def maxCallDepth : Nat := 10000

/-- The largest string, in bytes, or array, in items, that an operator builds. -/
def maxBuiltLength : Nat := 16777216

/-- Why a running program stops. -/
inductive RuntimeError where
  -- names
  | undefinedVariable (name : String)
  | undefinedField (field box : String)
  | undefinedFunction (signature : Signature)
  | extensionNotFound (name : String)
  -- values of the wrong kind
  | typeMismatch (expected found : Kind)
  | conversionOfNothing (expected : Kind)
  | operandMissing
  | negationOfNothing
  | unknownOperator (op : BinOp) (left right : Kind)
  | pathExpected (found : Kind)
  -- numbers
  | overflow (left : Int64) (op : BinOp) (right : Int64)
  | negationOverflow
  | divisionByZero
  | tooLarge
  -- operands and indices out of range
  | negativeRepeat (count : Int64)
  | dropTooMany (count : Int64) (length : Nat)
  | divisorNotPositive
  | partsNotPositive (parts : Int64)
  | countNotInt
  | lengthsDiffer (left right : Nat)
  | notIndexable (found : Kind)
  | indexNotInt (found : Kind)
  | indexOutOfRange (position : Int64) (length : Nat)
  -- built-in extensions
  | extensionArity (name : String) (allowed : List Nat) (given : Nat)
  | extensionWantsInt (name : String) (found : Kind)
  | extensionWantsString (name : String) (found : Kind)
  | extensionIndex (name : String) (position : Int64) (length : Nat)
  | removeNothing
  | replaceTooFew
  | replaceWithoutIndex
  | replaceInside (position : Int64) (found : Kind)
  | notANumber (s : String)
  | noFieldToSet (field : String)
  -- declared extensions
  | extensionOperands
  | extensionWithoutReceiver
  | extensionKind (name : String)
  | extensionBoxNotConst (box : String)
  | extensionBoxAbstract (box : String)
  | extensionFunctionMissing (function : String) (arity : Int64) (box : String)
  | extensionFunctionGuarded (function : String)
  -- calls
  | argumentCount (name : String) (expected given : Nat)
  | missingReturn (name : String)
  | stackOverflow
  | globalScopeCleared
  -- boxes
  | fieldReadDenied (field : String)
  | fieldWriteDenied (field : String)
  | callDenied (name : String)
  | duplicateField (field box : String)
  | duplicateFunction (signature : Signature) (box : String)
  | abstractNotOverridden (box : String) (functions : List String)
  | constRedefined (box : String)
  | baseNotFound (base : String)
  | boxNotFound (box : String)
  | abstractInstance (box : String)
  -- the outside
  | fileRead (path : String) (fault : FileFault)
  | importFailed (inner : String)
  | thrown (message : String)
  | inputNotText
  deriving DecidableEq, Repr

namespace RuntimeError

/-- The family of an error. -/
def kind : RuntimeError → ErrorKind
  | undefinedVariable _ => .undefinedVariable
  | undefinedField .. => .undefinedVariable
  | undefinedFunction _ => .undefinedFunction
  | extensionNotFound _ => .extensionNotFound
  | typeMismatch .. => .typeMismatch
  | conversionOfNothing _ => .missingValue
  | operandMissing => .missingValue
  | negationOfNothing => .missingValue
  | unknownOperator .. => .unknownOperator
  | pathExpected _ => .invalidPath
  | overflow .. => .arithmetic
  | negationOverflow => .arithmetic
  | divisionByZero => .arithmetic
  | tooLarge => .arithmetic
  | negativeRepeat _ => .argumentError
  | dropTooMany .. => .argumentError
  | divisorNotPositive => .argumentError
  | partsNotPositive _ => .argumentError
  | countNotInt => .argumentError
  | lengthsDiffer .. => .argumentError
  | notIndexable _ => .argumentError
  | indexNotInt _ => .argumentError
  | indexOutOfRange .. => .argumentError
  | extensionArity .. => .argumentError
  | extensionWantsInt .. => .argumentError
  | extensionWantsString .. => .argumentError
  | extensionIndex .. => .argumentError
  | removeNothing => .argumentError
  | replaceTooFew => .argumentError
  | replaceWithoutIndex => .argumentError
  | replaceInside .. => .argumentError
  | notANumber _ => .argumentError
  | noFieldToSet _ => .argumentError
  | extensionOperands => .argumentError
  | extensionWithoutReceiver => .argumentError
  | extensionKind _ => .argumentError
  | extensionBoxNotConst _ => .definitionError
  | extensionBoxAbstract _ => .definitionError
  | extensionFunctionMissing .. => .definitionError
  | extensionFunctionGuarded _ => .definitionError
  | argumentCount .. => .argumentError
  | missingReturn _ => .missingReturn
  | stackOverflow => .stackOverflow
  | globalScopeCleared => .argumentError
  | fieldReadDenied _ => .accessDenied
  | fieldWriteDenied _ => .accessDenied
  | callDenied _ => .accessDenied
  | duplicateField .. => .definitionError
  | duplicateFunction .. => .definitionError
  | abstractNotOverridden .. => .definitionError
  | constRedefined _ => .definitionError
  | baseNotFound _ => .definitionError
  | boxNotFound _ => .definitionError
  | abstractInstance _ => .definitionError
  | fileRead .. => .fileReadError
  | importFailed _ => .importExecutionError
  | thrown _ => .userThrown
  | inputNotText => .io

/-- The start of what a built-in extension complains about. -/
def ofExtension (name : String) : String := "extension '" ++ name ++ "'"

/-- An error in words. -/
def message : RuntimeError → String
  | undefinedVariable name => "variable '" ++ name ++ "' not found"
  | undefinedField field box => "field '" ++ field ++ "' not found in refbox '" ++ box ++ "'"
  | undefinedFunction s =>
    "function '" ++ s.name ++ "' with " ++ toString s.arity ++ " parameter(s) not found"
  | extensionNotFound name => ofExtension name ++ " not found"
  | typeMismatch expected found =>
    "type mismatch: expected " ++ expected.text ++ ", got " ++ found.text
  | conversionOfNothing expected => expected.text ++ " conversion requires a value"
  | operandMissing => "binary operation requires a value"
  | negationOfNothing => "unary minus requires a value"
  | unknownOperator op left right =>
    "unknown operator '" ++ op.symbol ++ "' for " ++ left.text ++ " and " ++ right.text
  | pathExpected found => "expected a String path, got " ++ found.text
  | overflow left op right =>
    "integer overflow in " ++ Text.showInt left ++ " " ++ op.symbol ++ " " ++ Text.showInt right
  | negationOverflow => "integer overflow in negation"
  | divisionByZero => "division by zero"
  | tooLarge => "result would exceed " ++ toString maxBuiltLength ++ " elements"
  | negativeRepeat count => "repeat count must not be negative, got " ++ Text.showInt count
  | dropTooMany count length =>
    "cannot drop " ++ Text.showInt count ++ " item(s) from length " ++ toString length
  | divisorNotPositive => "divisor must be positive"
  | partsNotPositive parts => "number of parts must be greater than zero, got " ++ Text.showInt parts
  | countNotInt => "right array must consist of Int only"
  | lengthsDiffer left right =>
    "arrays must have the same length (" ++ toString left ++ " and " ++ toString right ++ ")"
  | notIndexable found => "cannot index into " ++ found.text
  | indexNotInt found => "array index must be an Int, got " ++ found.text
  | indexOutOfRange position length =>
    "index " ++ Text.showInt position ++ " out of range for length " ++ toString length
  | extensionArity name allowed given =>
    ofExtension name ++ " expects " ++ " or ".intercalate (allowed.map toString)
      ++ " argument(s), got " ++ toString given
  | extensionWantsInt name found =>
    ofExtension name ++ " expects an Int argument, got " ++ found.text
  | extensionWantsString name found =>
    ofExtension name ++ " expects a String argument, got " ++ found.text
  | extensionIndex name position length =>
    ofExtension name ++ ": index " ++ Text.showInt position ++ " out of range for length "
      ++ toString length
  | removeNothing => ofExtension "removeat" ++ " requires a value"
  | replaceTooFew => ofExtension "replaceat" ++ " expects at least 2 arguments"
  | replaceWithoutIndex => ofExtension "replaceat" ++ " needs an index"
  | replaceInside position found =>
    ofExtension "replaceat" ++ ": element " ++ Text.showInt position ++ " is " ++ found.text
      ++ ", not an Array"
  | notANumber s => "cannot convert \"" ++ s ++ "\" to Int"
  | noFieldToSet field => ofExtension "reflectionsetfield" ++ ": no field '" ++ field ++ "'"
  | extensionOperands => "extension declaration expects (String, String, String, Int)"
  | extensionWithoutReceiver => "extension function needs at least one parameter"
  | extensionKind name => "invalid extension kind '" ++ name ++ "'"
  | extensionBoxNotConst box => "refbox '" ++ box ++ "' must be const to provide extensions"
  | extensionBoxAbstract box => "refbox '" ++ box ++ "' cannot be abstract"
  | extensionFunctionMissing function arity box =>
    "function '" ++ function ++ "' with " ++ Text.showInt arity
      ++ " parameter(s) not found in refbox '" ++ box ++ "'"
  | extensionFunctionGuarded function =>
    "function '" ++ function ++ "' must be exposed to be an extension"
  | argumentCount name expected given =>
    "function '" ++ name ++ "' expects " ++ toString expected ++ " argument(s), got "
      ++ toString given
  | missingReturn name => "no return statement in function '" ++ name ++ "'"
  | stackOverflow => "stack overflow: call depth exceeded " ++ toString maxCallDepth
  | globalScopeCleared => "cannot clear the global scope"
  | fieldReadDenied field => "cannot access guarded field '" ++ field ++ "'"
  | fieldWriteDenied field => "cannot set guarded field '" ++ field ++ "'"
  | callDenied name => "cannot call guarded function '" ++ name ++ "'"
  | duplicateField field box => "duplicate field '" ++ field ++ "' in refbox '" ++ box ++ "'"
  | duplicateFunction s box =>
    "duplicate function '" ++ s.text ++ "' in refbox '" ++ box ++ "'"
  | abstractNotOverridden box functions =>
    "refbox '" ++ box ++ "' does not override abstract function(s): "
      ++ ", ".intercalate functions
  | constRedefined box => "refbox '" ++ box ++ "' is const and cannot be redefined"
  | baseNotFound base => "base refbox '" ++ base ++ "' not found"
  | boxNotFound box => "refbox '" ++ box ++ "' not found"
  | abstractInstance box => "cannot create an instance of abstract refbox '" ++ box ++ "'"
  | fileRead path fault => "cannot read file '" ++ path ++ "': " ++ fault.text
  | importFailed inner => "error while executing imported script: " ++ inner
  | thrown message => message
  | inputNotText => "IO error: " ++ FileFault.notText.text

/-- An error as it is shown on a line of its own. -/
def display (e : RuntimeError) : String := "Runtime error: " ++ e.message

end RuntimeError
end BoxScript
