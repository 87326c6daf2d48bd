import BoxScript.Text.Ranges

/-!
# Blank characters

The blanks are the characters with the Unicode property White_Space. Reading numbers and lines
from the console ignores them at both ends of a text, and a text is split at each of them.
-/

namespace BoxScript.Text

/-- The characters with the property White_Space. -/
def blankRanges : List (Nat × Nat) :=
  [(0x0009, 0x000d), (0x0020, 0x0020), (0x0085, 0x0085), (0x00a0, 0x00a0), (0x1680, 0x1680),
   (0x2000, 0x200a), (0x2028, 0x2029), (0x202f, 0x202f), (0x205f, 0x205f), (0x3000, 0x3000)]

/-- Whether `c` is a blank. -/
def isBlank (c : Char) : Bool := covers blankRanges c

/-- A text without the blanks at its two ends. -/
def trim (cs : List Char) : List Char :=
  ((cs.dropWhile isBlank).reverse.dropWhile isBlank).reverse

/-- Cut a text at every blank. Neighbouring blanks have an empty piece between them. The pieces
found so far and the piece being read are kept in reverse. -/
def splitBlanksFrom (pieces : List (List Char)) (piece : List Char) : List Char → List (List Char)
  | [] => (piece.reverse :: pieces).reverse
  | c :: cs =>
    if isBlank c then splitBlanksFrom (piece.reverse :: pieces) [] cs
    else splitBlanksFrom pieces (c :: piece) cs

/-- The pieces of a text between its blanks. -/
def splitBlanks (cs : List Char) : List (List Char) := splitBlanksFrom [] [] cs

/-- Every character that core calls whitespace is a blank. -/
theorem isBlank_of_isWhitespace {c : Char} (h : c.isWhitespace) : isBlank c := by
  simp only [Char.isWhitespace, Bool.or_eq_true, decide_eq_true_eq] at h
  rcases h with ((rfl | rfl) | rfl) | rfl <;> decide

end BoxScript.Text
