import BoxScript.Text.Blank
import BoxScript.Text.Search
import BoxScript.Value

/-!
# Built-in extensions of arrays, strings and integers

Each kind of value has extensions under names in lower case. A name that a kind does not have is
no error here: the answer is then `none`.
-/

namespace BoxScript.Builtin

/-! ## Arguments -/

/-- Refuse a number of arguments that is not among the allowed ones. -/
def expectArgs (name : String) (args : List Value) (allowed : List Nat) :
    Except RuntimeError Unit :=
  if allowed.contains args.length then .ok ()
  else .error (.extensionArity name allowed args.length)

/-- The integer that an argument is. -/
def intArg (name : String) : Value → Except RuntimeError Int64
  | .int n => .ok n
  | v => .error (.extensionWantsInt name v.kind)

/-- The string that an argument is. -/
def strArg (name : String) : Value → Except RuntimeError String
  | .str s => .ok s
  | v => .error (.extensionWantsString name v.kind)

/-- A position below a limit, in something of a length. -/
def position (name : String) (i : Int64) (length limit : Nat) : Except RuntimeError Nat :=
  if i < 0 ∨ limit ≤ i.toInt.toNat then .error (.extensionIndex name i length)
  else .ok i.toInt.toNat

/-! ## Arrays -/

/-- An array with `value` at the end of a path of positions through nested arrays. -/
def replaceNested (value : Value) : List Int64 → List Value → Except RuntimeError (List Value)
  | [], _ => .error .replaceWithoutIndex
  | [i], items => do
    let n ← position "replaceat" i items.length items.length
    return items.set n value
  | i :: rest, items => do
    let n ← position "replaceat" i items.length items.length
    match items[n]? with
    | some (.array inner) =>
      let inner ← replaceNested value rest inner
      return items.set n (.array inner)
    | found => .error (.replaceInside i (found.getD .void).kind)

/-- An extension of an array. `text` is how the console shows a value. -/
def ofArray (text : Value → String) (name : String) (items args : List Value) :
    Except RuntimeError (Option Value) := do
  match name, args with
  | "length", _ =>
    expectArgs name args [0]
    return some (.ofSize items.length)
  | "reverse", _ =>
    expectArgs name args [0]
    return some (.array items.reverse)
  | "tostring", [separator] =>
    let separator ← strArg name separator
    return some (.str (separator.intercalate (items.map text)))
  | "tostring", _ =>
    expectArgs name args [0, 1]
    return some (.str (String.join (items.map text)))
  | "removeat", [at_] =>
    if at_.isVoid then throw .removeNothing
    let n ← position name (← intArg name at_) items.length items.length
    return some (.array (items.eraseIdx n))
  | "removeat", _ => throw (.extensionArity name [1] args.length)
  | "append", [item] => return some (.array (items ++ [item]))
  | "append", _ => throw (.extensionArity name [1] args.length)
  | "addat", [at_, item] =>
    let n ← position name (← intArg name at_) items.length (items.length + 1)
    return some (.array (items.insertIdx n item))
  | "addat", _ => throw (.extensionArity name [2] args.length)
  | "prepend", [item] => return some (.array (item :: items))
  | "prepend", _ => throw (.extensionArity name [1] args.length)
  | "replaceat", _ =>
    if args.length < 2 then throw .replaceTooFew
    let path ← args.dropLast.mapM (intArg name)
    return some (.array (← replaceNested (args.getLast?.getD .void) path items))
  | "has", [item] => return some (.ofBool (items.any (Value.same · item)))
  | "contains", [item] => return some (.ofBool (items.any (Value.same · item)))
  | "has", _ => throw (.extensionArity name [1] args.length)
  | "contains", _ => throw (.extensionArity name [1] args.length)
  | _, _ => return none

/-! ## Strings -/

/-- Texts as an array of strings. -/
def arrayOfTexts (texts : List (List Char)) : Value :=
  .array (texts.map fun t => .str (String.ofList t))

/-- An extension of a string. -/
def ofString (name : String) (s : String) (args : List Value) :
    Except RuntimeError (Option Value) := do
  match name, args with
  | "tolower", _ =>
    expectArgs name args [0]
    return some (.str (Text.toLower s))
  | "toupper", _ =>
    expectArgs name args [0]
    return some (.str (Text.toUpper s))
  | "reverse", _ =>
    expectArgs name args [0]
    return some (.str (String.ofList s.toList.reverse))
  | "toarray", _ =>
    expectArgs name args [0]
    return some (arrayOfTexts (s.toList.map ([·])))
  | "length", _ =>
    expectArgs name args [0]
    return some (.ofSize s.length)
  | "toint", _ =>
    expectArgs name args [0]
    match Text.readTrimmedInt? s with
    | some n => return some (.int n)
    | none => throw (.notANumber s)
  | "canconverttoint", _ =>
    expectArgs name args [0]
    return some (.ofBool (Text.readTrimmedInt? s).isSome)
  | "split", [separator] =>
    let separator ← strArg name separator
    return some (arrayOfTexts (Text.split s.toList separator.toList))
  | "split", _ =>
    expectArgs name args [0, 1]
    return some (arrayOfTexts (Text.splitBlanks s.toList))
  | "replaceat", [at_, replacement] =>
    let i ← intArg name at_
    let replacement ← strArg name replacement
    let cs := s.toList
    let n ← position name i cs.length cs.length
    return some (.str (String.ofList (cs.take n) ++ replacement ++ String.ofList (cs.drop (n + 1))))
  | "replaceat", _ => throw (.extensionArity name [2] args.length)
  | _, _ => return none

/-! ## Integers -/

/-- An extension of an integer. -/
def ofInt (name : String) (n : Int64) (args : List Value) : Except RuntimeError (Option Value) := do
  match name with
  | "tostring" =>
    expectArgs name args [0]
    return some (.str (Text.showInt n))
  | _ => return none

end BoxScript.Builtin
