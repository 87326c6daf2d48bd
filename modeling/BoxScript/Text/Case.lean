import BoxScript.Text.CaseTable
import BoxScript.Text.Cased

/-!
# Upper and lower case of a text

Case maps are the full ones: a character may become several (`ß` is `SS` in upper case, `İ` is
`i` with a dot above in lower case), and a capital sigma that ends a word becomes the final form
of the small sigma.
-/

namespace BoxScript.Text

/-- The code point that the run sends `n` to, if the run holds `n`. -/
def CaseRun.image? (r : CaseRun) (n : Nat) : Option Nat :=
  if r.first ≤ n && n ≤ r.last && (n - r.first) % r.step == 0 then some (n + r.shift).toNat
  else none

/-- One character sent through the runs; a character outside all of them stays. -/
def moveCase (runs : List CaseRun) (c : Char) : Char :=
  match runs.findSome? (·.image? c.toNat) with
  | some n => Char.ofNat n
  | none => c

/-- The upper case of one character. -/
def upperChar (c : Char) : List Char :=
  if c.toNat < 0x80 then [c.toUpper]
  else match upperExpansions.find? (·.1 == c.toNat) with
    | some (_, codes) => codes.map Char.ofNat
    | none => [moveCase upperRuns c]

/-- The lower case of one character, its neighbours left aside. -/
def lowerChar (c : Char) : List Char :=
  if c.toNat < 0x80 then [c.toLower]
  else if c = 'İ' then ['i', '\u0307']
  else [moveCase lowerRuns c]

/-- Whether the first character that matters for case has one. -/
def meetsCased (cs : List Char) : Bool :=
  match cs.dropWhile isCaseIgnorable with
  | c :: _ => isCased c
  | [] => false

/-- The lower case of `c` between the characters before it, nearest first, and those after it. -/
def lowerBetween (before : List Char) (c : Char) (after : List Char) : List Char :=
  if c = 'Σ' then (if meetsCased before && !meetsCased after then ['ς'] else ['σ'])
  else lowerChar c

/-- The lower case of a text read from left to right; what is read and what is written so far are
kept in reverse. -/
def lowerFrom (before written : List Char) : List Char → List Char
  | [] => written.reverse
  | c :: cs => lowerFrom (c :: before) ((lowerBetween before c cs).reverse ++ written) cs

/-- A text in upper case. -/
def toUpper (s : String) : String := String.ofList (s.toList.flatMap upperChar)

/-- A text in lower case. -/
def toLower (s : String) : String := String.ofList (lowerFrom [] [] s.toList)

end BoxScript.Text
