/-!
# Places in a text

A place is a line and a column, both counted from one. More characters than the line feed end a
line here, as they do in an editor. A carriage return before a line feed does not end a line, the
line feed does. The end of the last line starts no new one.
-/

namespace BoxScript.Text

/-- Whether a line can end with `c`. -/
def isLineEnd (c : Char) : Bool :=
  ['\n', '\r', '\x0b', '\x0c', '\u0085', '\u2028', '\u2029'].contains c

/-- Whether a new line starts between `c` and the text after it. -/
def startsLine (c : Char) (cs : List Char) : Bool :=
  isLineEnd c && match cs with
    | [] => false
    | d :: _ => !(c = '\r' && d = '\n')

/-- The place after so many characters, from a line and a column on. -/
def placeFrom (line column : Nat) : Nat → List Char → Nat × Nat
  | 0, _ => (line, column)
  | _ + 1, [] => (line, column)
  | n + 1, c :: cs =>
    if startsLine c cs then placeFrom (line + 1) 1 n cs else placeFrom line (column + 1) n cs

/-- The place after so many characters of a text. -/
def place (cs : List Char) (n : Nat) : Nat × Nat := placeFrom 1 1 n cs

end BoxScript.Text
