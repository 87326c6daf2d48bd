import BoxScript.Text.Blank

/-!
# Integers as text

The integers of the language are the signed 64-bit ones. A text is read as an integer when it is
an optional sign and at least one digit, and the number is in range; the number of leading zeros
does not matter. `fit` decides the range for every exact result in the project.
-/

namespace BoxScript

/-- The integer `n`, when 64 bits hold it. -/
def fit (n : Int) : Option Int64 :=
  if Int64.minValue.toInt ≤ n ∧ n ≤ Int64.maxValue.toInt then some (Int64.ofInt n) else none

/-- A size, held at the largest integer when it is beyond it. -/
def clampSize (n : Nat) : Int64 := (fit n).getD Int64.maxValue

namespace Text

/-- Whether `c` is one of the ten digits. -/
def isDigit (c : Char) : Bool := '0' ≤ c && c ≤ '9'

/-- The number that a row of digits stands for. -/
def digitsValue (ds : List Char) : Nat :=
  ds.foldl (fun n d => n * 10 + (d.toNat - '0'.toNat)) 0

/-- The number that a text of digits stands for. -/
def readNat? (ds : List Char) : Option Nat :=
  if ds.isEmpty || !ds.all isDigit then none else some (digitsValue ds)

/-- The integer that a text stands for: a sign or none, then digits, in range. -/
def readInt? (cs : List Char) : Option Int64 :=
  match cs with
  | '-' :: ds => (readNat? ds).bind fun n => fit (-n)
  | '+' :: ds => (readNat? ds).bind fun n => fit n
  | ds => (readNat? ds).bind fun n => fit n

/-- The integer that a text stands for once the blanks around it are gone. -/
def readTrimmedInt? (s : String) : Option Int64 := readInt? (trim s.toList)

/-- An integer in decimal. -/
def showInt (n : Int64) : String := toString n.toInt

end Text
end BoxScript
