import BoxScript.Text.Case

/-!
# Kinds of values

Operators, conversions and extensions look at the kind of a value only.
-/

namespace BoxScript

/-- What kind of value a value is. -/
inductive Kind where
  | int | string | array | refbox | void
  deriving DecidableEq, Repr

namespace Kind

/-- The kind as the language names it. -/
def text : Kind → String
  | int => "Int"
  | string => "String"
  | array => "Array"
  | refbox => "RefBox"
  | void => "Void"

/-- The kind that an extension can be declared for under a name, whatever the name's case. -/
def ofName? (name : String) : Option Kind :=
  match Text.toLower name with
  | "string" => some string
  | "int" => some int
  | "refbox" => some refbox
  | "array" => some array
  | _ => none

end Kind
end BoxScript
