import BoxScript.Pool
import BoxScript.RuntimeError

/-!
# Values

Integers, strings and arrays are plain data and are copied. An instance of a box is a handle:
all who hold it see the same fields.
-/

namespace BoxScript

/-- A value of the running program. -/
inductive Value where
  | int (n : Int64)
  | str (s : String)
  | array (items : List Value)
  | object (instance_ : Handle)
  | void
  deriving Inhabited

namespace Value

/-- The kind of a value. -/
def kind : Value → Kind
  | int _ => .int
  | str _ => .string
  | array _ => .array
  | object _ => .refbox
  | void => .void

/-- Whether there is no value. -/
def isVoid : Value → Bool
  | void => true
  | _ => false

/-- The integer one for true and zero for false. -/
def ofBool (b : Bool) : Value := int (if b then 1 else 0)

/-- A size as an integer. -/
def ofSize (n : Nat) : Value := int (clampSize n)

/-- A value that may be missing. -/
def ofOption : Option Value → Value
  | some v => v
  | none => void

mutual

/-- Whether two values are the same: equal data, or the same instance. -/
def same : Value → Value → Bool
  | int a, int b => a == b
  | str a, str b => a == b
  | array a, array b => sameItems a b
  | object a, object b => a == b
  | void, void => true
  | _, _ => false

/-- Whether two lists of values are the same, item by item. -/
def sameItems : List Value → List Value → Bool
  | [], [] => true
  | a :: as, b :: bs => same a b && sameItems as bs
  | _, _ => false

end

instance : BEq Value := ⟨same⟩

/-- The error of a value that is not of the kind `expected`. -/
def mismatch (expected : Kind) : Value → RuntimeError
  | void => .conversionOfNothing expected
  | v => .typeMismatch expected v.kind

/-- The integer that a value is. -/
def asInt : Value → Except RuntimeError Int64
  | int n => .ok n
  | v => .error (v.mismatch .int)

/-- The string that a value is. -/
def asStr : Value → Except RuntimeError String
  | str s => .ok s
  | v => .error (v.mismatch .string)

/-- The items of the array that a value is. -/
def asArray : Value → Except RuntimeError (List Value)
  | array items => .ok items
  | v => .error (v.mismatch .array)

/-- The instance that a value is. -/
def asObject : Value → Except RuntimeError Handle
  | object h => .ok h
  | v => .error (v.mismatch .refbox)

/-- The value of a line from the console: an integer if the line is one, else the line. -/
def ofInputLine (line : String) : Value :=
  match Text.readTrimmedInt? line with
  | some n => int n
  | none => str line

end Value
end BoxScript
