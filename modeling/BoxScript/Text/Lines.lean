/-!
# Lines of a text

A line feed ends a line, and a carriage return right before it belongs to the end. What follows
the last line feed is a line only if characters stand on it.
-/

namespace BoxScript.Text

/-- The lines of a text, behind those that are `found` and the line being read, both in reverse. -/
def linesFrom (found : List (List Char)) (line : List Char) : List Char → List (List Char)
  | [] => if line.isEmpty then found.reverse else (line.reverse :: found).reverse
  | '\n' :: cs =>
    match line with
    | '\r' :: line => linesFrom (line.reverse :: found) [] cs
    | line => linesFrom (line.reverse :: found) [] cs
  | c :: cs => linesFrom found (c :: line) cs

/-- The lines of a text. -/
def lines (s : String) : List String := (linesFrom [] [] s.toList).map String.ofList

end BoxScript.Text
