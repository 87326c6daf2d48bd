import BoxScript.Text.Search
import BoxScript.Value

/-!
# Operators between two values

What an operator does hangs on the kinds of both operands. Arithmetic is exact or fails: there is
no wrap-around. What an operator builds is bounded by `maxBuiltLength`, and a larger result is
refused before any of it is built.
-/

namespace BoxScript.Operator

/-! ## Integers -/

/-- The exact result of an operator, if it is in range. -/
def exact (a : Int64) (op : BinOp) (b : Int64) (result : Int) : Except RuntimeError Value :=
  match fit result with
  | some n => .ok (.int n)
  | none => .error (.overflow a op b)

/-- A power, if it is defined and in range. A negative exponent gives the fraction cut to zero. A
base beyond -1 and 1 leaves the range before the exponent 64. -/
def power? (base exponent : Int) : Option Int64 :=
  if base = 1 then some 1
  else if base = -1 then some (if exponent % 2 = 0 then 1 else -1)
  else if base = 0 then
    if exponent = 0 then some 1 else if exponent < 0 then none else some 0
  else if exponent < 0 then some 0
  else if 64 ≤ exponent then none
  else fit (Int.pow base exponent.toNat)

/-- An operator between two integers. -/
def ints (op : BinOp) (a b : Int64) : Except RuntimeError Value :=
  match op with
  | .add => exact a op b (a.toInt + b.toInt)
  | .sub => exact a op b (a.toInt - b.toInt)
  | .mul => exact a op b (a.toInt * b.toInt)
  | .div => if b = 0 then .error .divisionByZero else exact a op b (a.toInt.tdiv b.toInt)
  | .mod =>
    if b = 0 then .error .divisionByZero
    else if a = Int64.minValue ∧ b = -1 then .error (.overflow a op b)
    else exact a op b (a.toInt.tmod b.toInt)
  | .pow =>
    match power? a.toInt b.toInt with
    | some n => .ok (.int n)
    | none => .error (.overflow a op b)
  | .and => .ok (.ofBool (a != 0 && b != 0))
  | .or => .ok (.ofBool (a != 0 || b != 0))
  | .gt => .ok (.ofBool (b < a))
  | .ge => .ok (.ofBool (b ≤ a))
  | .lt => .ok (.ofBool (a < b))
  | .le => .ok (.ofBool (a ≤ b))
  | .eq => .ok (.ofBool (a == b))
  | .ne => .ok (.ofBool (a != b))

/-! ## Sizes -/

/-- A count of copies. -/
def count (n : Int64) : Except RuntimeError Nat :=
  if n < 0 then .error (.negativeRepeat n) else .ok n.toInt.toNat

/-- Refuse a size beyond the bound. -/
def bounded (size : Nat) : Except RuntimeError Unit :=
  if size ≤ maxBuiltLength then .ok () else .error .tooLarge

/-- How often a unit of `size` is repeated. Nothing is repeated no times. -/
def repeatCount (size : Nat) (n : Int64) : Except RuntimeError Nat := do
  let n ← count n
  if size = 0 then return 0
  bounded (size * n)
  return n

/-- What is left of a length when the last `n` are dropped. -/
def shortened (length : Nat) (n : Int64) : Except RuntimeError Nat :=
  if n < 0 ∨ (length : Int) < n.toInt then .error (.dropTooMany n length)
  else .ok (length - n.toInt.toNat)

/-! ## Strings -/

/-- The first characters of a text. -/
def takeText (s : String) (n : Nat) : String := String.ofList (s.toList.take n)

/-- Copies of a text in a row. -/
def repeatText (s : String) (n : Nat) : String := n.repeat (· ++ s) ""

/-- A text, repeated. -/
def timesText (s : String) (n : Int64) : Except RuntimeError Value := do
  let n ← repeatCount s.utf8ByteSize n
  return .str (repeatText s n)

/-- The part of a text that a number divides off. -/
def divideText (s : String) (n : Int64) : Except RuntimeError Value :=
  if n = 0 then .error .divisionByZero
  else
    let keep := (s.length : Int).tdiv n.toInt
    if keep < 0 then .error .divisorNotPositive else .ok (.str (takeText s keep.toNat))

/-! ## Arrays -/

/-- Copies of an array in a row. -/
def timesItems (items : List Value) (n : Int64) : Except RuntimeError Value := do
  let n ← repeatCount items.length n
  return .array (List.replicate n items).flatten

/-- So many pieces of `size` items each, as long as there are items, behind those that are `cut`
in reverse. -/
def chunksFrom (cut : List Value) (size : Nat) : Nat → List Value → List Value
  | 0, _ => cut.reverse
  | parts + 1, items => chunksFrom (.array (items.take size) :: cut) size parts (items.drop size)

/-- An array in a number of pieces, all of one size as far as the items reach. -/
def divideItems (items : List Value) (parts : Int64) : Except RuntimeError Value := do
  if parts ≤ 0 then throw (.partsNotPositive parts)
  let parts := parts.toInt.toNat
  bounded parts
  return .array (chunksFrom [] ((items.length + parts - 1) / parts) parts items)

/-- Whether `a` ends in `b`. -/
def endsIn (a b : List Value) : Bool :=
  b.length ≤ a.length && Value.sameItems (a.drop (a.length - b.length)) b

/-- The count that a value of the right array is. -/
def countOf : Value → Except RuntimeError Nat
  | .int n => count n
  | _ => .error .countNotInt

/-- Each item of an array, repeated in an array of its own by the matching count. -/
def timesEach (items counts : List Value) : Except RuntimeError Value := do
  let counts ← counts.mapM countOf
  if items.length ≠ counts.length then throw (.lengthsDiffer items.length counts.length)
  bounded (counts.foldl (· + ·) 0)
  return .array (List.zipWith (fun item n => .array (List.replicate n item)) items counts)

/-- How many copies of `block` in a row an array is; none if it is no such row. -/
def countBlocks (items block : List Value) : Nat :=
  if block.isEmpty || items.length % block.length ≠ 0 then 0
  else
    let n := items.length / block.length
    if Value.sameItems items (List.replicate n block).flatten then n else 0

/-! ## All kinds -/

/-- An operator between two values. -/
def binary (op : BinOp) (left right : Value) : Except RuntimeError Value :=
  let unknown := .error (.unknownOperator op left.kind right.kind)
  match left, right with
  | .void, _ | _, .void => .error .operandMissing
  | .int a, .int b => ints op a b
  | .int n, .str s =>
    match op with
    | .add => .ok (.str (Text.showInt n ++ s))
    | .mul => timesText s n
    | .gt => .ok (.ofBool ((s.length : Int) < n.toInt))
    | .eq => .ok (.ofBool (n.toInt == s.length))
    | .ne => .ok (.ofBool (n.toInt != s.length))
    | _ => unknown
  | .str s, .int n =>
    match op with
    | .add => .ok (.str (s ++ Text.showInt n))
    | .sub => do
      let keep ← shortened s.length n
      return .str (takeText s keep)
    | .mul => timesText s n
    | .div => divideText s n
    | .lt => .ok (.ofBool ((s.length : Int) < n.toInt))
    | .le => .ok (.ofBool ((s.length : Int) ≤ n.toInt))
    | .eq => .ok (.ofBool (n.toInt == s.length))
    | .ne => .ok (.ofBool (n.toInt != s.length))
    | _ => unknown
  | .array items, .int n =>
    match op with
    | .add => .ok (.array (items ++ [right]))
    | .sub => do
      let keep ← shortened items.length n
      return .array (items.take keep)
    | .mul => timesItems items n
    | .div => divideItems items n
    | .lt => .ok (.ofBool ((items.length : Int) < n.toInt))
    | .le => .ok (.ofBool ((items.length : Int) ≤ n.toInt))
    | .eq => .ok (.ofBool (n.toInt == items.length))
    | .ne => .ok (.ofBool (n.toInt != items.length))
    | _ => unknown
  | .int _, .array items | .str _, .array items =>
    match op with
    | .add => .ok (.array (left :: items))
    | _ => unknown
  | .array items, .str _ =>
    match op with
    | .add => .ok (.array (items ++ [right]))
    | _ => unknown
  | .array a, .array b =>
    match op with
    | .add => .ok (.array (a ++ b))
    | .sub => .ok (.array (if endsIn a b then a.take (a.length - b.length) else a))
    | .mul => timesEach a b
    | .div => .ok (.ofSize (countBlocks a b))
    | .lt => .ok (.ofBool (a.length < b.length))
    | .gt => .ok (.ofBool (b.length < a.length))
    | .eq => .ok (.ofBool (Value.sameItems a b))
    | .ne => .ok (.ofBool (!Value.sameItems a b))
    | _ => unknown
  | .str a, .str b =>
    match op with
    | .add => .ok (.str (a ++ b))
    | .sub => .ok (.str (String.ofList (Text.dropCopiesEnd a.toList b.toList)))
    | .div => .ok (.ofSize (Text.count a.toList b.toList))
    | .gt => .ok (.ofBool (b < a))
    | .ge => .ok (.ofBool (b ≤ a))
    | .lt => .ok (.ofBool (a < b))
    | .le => .ok (.ofBool (a ≤ b))
    | .eq => .ok (.ofBool (a == b))
    | .ne => .ok (.ofBool (a != b))
    | _ => unknown
  | _, _ => unknown

/-- The minus of a value. -/
def negate : Value → Except RuntimeError Value
  | .int n =>
    match fit (-n.toInt) with
    | some n => .ok (.int n)
    | none => .error .negationOverflow
  | .void => .error .negationOfNothing
  | v => .error (.typeMismatch .int v.kind)

/-- The item of an array at a position. -/
def index (target position : Value) : Except RuntimeError Value :=
  match target, position with
  | .array items, .int i =>
    if i < 0 then .error (.indexOutOfRange i items.length)
    else match items[i.toInt.toNat]? with
      | some v => .ok v
      | none => .error (.indexOutOfRange i items.length)
  | .array _, v => .error (.indexNotInt v.kind)
  | v, _ => .error (.notIndexable v.kind)

end BoxScript.Operator
