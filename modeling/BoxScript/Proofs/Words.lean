import BoxScript.Proofs.Chunks
import BoxScript.Proofs.Metered

/-!
# Operators in machine words

`Operator.binary` reckons with numbers of any size. A machine has words of 64 bits: a size is a
word without a sign, an integer is one with a sign, and most sums, products and conversions on the
way to a result are not checked. This is the second account of the operators, which says where they
use words. An instruction goes wrong, and the program is without an outcome, where an exact result
does not fit into its word, where something is divided by zero, and where a slice reaches beyond its
array. The meter counts what `*` has built: bytes of text and items of arrays.
-/

namespace BoxScript

/-- A program in machine words. -/
abbrev Words := Metered RuntimeError

namespace Words

open Metered (stuck)

/-! ## Instructions -/

/-- A number as a size, if it is one. -/
def size? (n : Int) : Option Nat := if 0 ≤ n ∧ n < 2 ^ 64 then some n.toNat else none

/-- A number that has to be a size. -/
def size (n : Int) : Words Nat :=
  match size? n with
  | some n => pure n
  | none => stuck

/-- A number that has to be an integer. -/
def int (n : Int) : Words Int64 :=
  match fit n with
  | some n => pure n
  | none => stuck

def quotient (a b : Nat) : Words Nat := if b = 0 then stuck else pure (a / b)

def remainder (a b : Nat) : Words Nat := if b = 0 then stuck else pure (a % b)

def divide (a b : Int64) : Words Int64 := if b = 0 then stuck else int (a.toInt.tdiv b.toInt)

/-- The items from one position to another. -/
def slice (items : List Value) (start stop : Nat) : Words (List Value) :=
  if start ≤ stop ∧ stop ≤ items.length then pure ((items.drop start).take (stop - start))
  else stuck

/-- The slices of a size that make up an array. The last one can be shorter. -/
def slices (items : List Value) (size : Nat) : Words (List (List Value)) :=
  if size = 0 then stuck else pure (Operator.chunks size (items.length ⌈/⌉ size) items)

/-- Count what is built. -/
def build (n : Nat) : Words Unit := modify (· + n)

/-! ## Integers -/

/-- A power. Only the remainder of the exponent is not checked. -/
def power (base exponent : Int64) : Words (Option Int64) := do
  if base = 1 then return some 1
  if base = -1 then
    let rest ← int (exponent.toInt.tmod 2)
    return some (if rest = 0 then 1 else -1)
  if base = 0 then
    return if exponent = 0 then some 1 else if exponent < 0 then none else some 0
  if exponent < 0 then return some 0
  -- a checked power takes its exponent in 32 bits
  if 2 ^ 32 ≤ exponent.toInt then return none
  return fit (base.toInt ^ exponent.toInt.toNat)

/-- An operator between two integers. All but the power check what they do. -/
def ints (op : BinOp) (a b : Int64) : Words Value :=
  match op with
  | .pow => do
    match ← power a b with
    | some n => return .int n
    | none => throw (.overflow a op b)
  | _ => ofExcept (Operator.ints op a b)

/-! ## Sizes -/

/-- A length as an integer. -/
def length (n : Nat) : Words Int64 := int n

def count (n : Int64) : Words Nat :=
  match size? n.toInt with
  | some n => pure n
  | none => throw (.negativeRepeat n)

/-- Refuse a size that is beyond the bound or no size at all. -/
def bounded : Option Nat → Words Nat
  | some n => if n ≤ maxBuiltLength then pure n else throw .tooLarge
  | none => throw .tooLarge

def repeatCount (unit : Nat) (n : Int64) : Words Nat := do
  let n ← count n
  if unit = 0 then return 0
  let _ ← bounded (size? (unit * n))
  return n

def shortened (length n : Int64) : Words Nat :=
  if n < 0 ∨ length < n then throw (.dropTooMany n length.toInt.toNat)
  else do
    let keep ← int (length.toInt - n.toInt)
    size keep.toInt

/-! ## Strings -/

def timesText (s : String) (n : Int64) : Words Value := do
  let n ← repeatCount s.utf8ByteSize n
  let bytes ← size (s.utf8ByteSize * n)
  build bytes
  return .str (Operator.repeatText s n)

def divideText (s : String) (n : Int64) : Words Value :=
  if n = 0 then throw .divisionByZero
  else do
    let keep ← divide (← length s.length) n
    match size? keep.toInt with
    | some keep => return .str (Operator.takeText s keep)
    | none => throw .divisorNotPositive

/-! ## Arrays -/

/-- So many copies of a unit, written behind a row one after the other. -/
def extended (unit : List Value) : Nat → List Value → Words (List Value)
  | 0, row => return row
  | n + 1, row => do
    build unit.length
    extended unit n (row ++ unit)

def timesItems (items : List Value) (n : Int64) : Words Value := do
  let n ← repeatCount items.length n
  let _capacity ← size (items.length * n)
  return .array (← extended items n [])

/-- A quotient, rounded up. -/
def ceilDiv (a b : Nat) : Words Nat := do
  let whole ← quotient a b
  let rest ← remainder a b
  if 0 < rest then size (whole + 1) else return whole

/-- One of the parts of an array, which have `unit` items as long as there are items. -/
def part (items : List Value) (unit i : Nat) : Words Value := do
  let start ← size (i * unit)
  let start := min start items.length
  let stop ← size (start + unit)
  return .array (← slice items start (min stop items.length))

def divideItems (items : List Value) (parts : Int64) : Words Value :=
  if parts ≤ 0 then throw (.partsNotPositive parts)
  else do
    let parts ← bounded (size? parts.toInt)
    let unit ← ceilDiv items.length parts
    return .array (← (List.range parts).mapM (part items unit))

def withoutEnd (a b : List Value) : Words (List Value) := do
  if Operator.endsIn a b then
    let stop ← size (a.length - b.length)
    slice a 0 stop
  else return a

def countOf : Value → Words Nat
  | .int n => count n
  | _ => throw .countNotInt

/-- For each item an array of copies. -/
def rows : List Value → List Nat → Words (List Value)
  | item :: items, n :: counts => do
    build n
    return .array (List.replicate n item) :: (← rows items counts)
  | _, _ => return []

/-- A sum of counts, if it is a size. -/
def total? (counts : List Nat) : Option Nat :=
  counts.foldlM (fun total n => size? ((total + n : Nat) : Int)) 0

def timesEach (items counts : List Value) : Words Value := do
  let counts ← counts.mapM countOf
  if items.length ≠ counts.length then throw (.lengthsDiffer items.length counts.length)
  else
    let _ ← bounded (total? counts)
    return .array (← rows items counts)

def countBlocks (items block : List Value) : Words Nat := do
  if block.isEmpty then return 0
  if (← remainder items.length block.length) ≠ 0 then return 0
  if (← slices items block.length).all (Value.sameItems · block) then
    quotient items.length block.length
  else return 0

/-! ## All kinds -/

/-- An operator between two values. -/
def binary (op : BinOp) (left right : Value) : Words Value :=
  let unknown := throw (.unknownOperator op left.kind right.kind)
  match left, right with
  | .void, _ | _, .void => throw .operandMissing
  | .int a, .int b => ints op a b
  | .int n, .str s =>
    match op with
    | .add => return .str (Text.showInt n ++ s)
    | .mul => timesText s n
    | .gt => return .ofBool ((← length s.length) < n)
    | .eq => return .ofBool (n == (← length s.length))
    | .ne => return .ofBool (n != (← length s.length))
    | _ => unknown
  | .str s, .int n =>
    match op with
    | .add => return .str (s ++ Text.showInt n)
    | .sub => do
      let keep ← shortened (← length s.length) n
      return .str (Operator.takeText s keep)
    | .mul => timesText s n
    | .div => divideText s n
    | .lt => return .ofBool ((← length s.length) < n)
    | .le => return .ofBool ((← length s.length) ≤ n)
    | .eq => return .ofBool (n == (← length s.length))
    | .ne => return .ofBool (n != (← length s.length))
    | _ => unknown
  | .array items, .int n => do
    let len ← length items.length
    match op with
    | .add => return .array (items ++ [right])
    | .sub => do
      let keep ← shortened len n
      return .array (← slice items 0 keep)
    | .mul => timesItems items n
    | .div => divideItems items n
    | .lt => return .ofBool (len < n)
    | .le => return .ofBool (len ≤ n)
    | .eq => return .ofBool (n == len)
    | .ne => return .ofBool (n != len)
    | _ => unknown
  | .int _, .array items | .str _, .array items =>
    match op with
    | .add => do
      let _capacity ← size (items.length + 1)
      return .array (left :: items)
    | _ => unknown
  | .array items, .str _ =>
    match op with
    | .add => return .array (items ++ [right])
    | _ => unknown
  | .array a, .array b =>
    match op with
    | .add => return .array (a ++ b)
    | .sub => return .array (← withoutEnd a b)
    | .mul => timesEach a b
    | .div => return .ofSize (← countBlocks a b)
    | .lt => return .ofBool (a.length < b.length)
    | .gt => return .ofBool (b.length < a.length)
    | .eq => return .ofBool (Value.sameItems a b)
    | .ne => return .ofBool (!Value.sameItems a b)
    | _ => unknown
  -- between two texts nothing is reckoned
  | .str _, .str _ => ofExcept (Operator.binary op left right)
  | _, _ => unknown

end Words
end BoxScript
