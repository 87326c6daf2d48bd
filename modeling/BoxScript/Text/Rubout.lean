import BoxScript.Span
import BoxScript.Text.Cluster

/-!
# Rubbing out

A backspace in a line of input takes back the cluster before it, and nothing where there is none.
A line keeps the size of each of its clusters in one byte, so of a cluster of 256 bytes or more
only the remainder is taken back. When that would cut a character in two, the line is broken.
-/

namespace BoxScript.Text

/-- A text in reverse without so many bytes at its end; `none` if a character would be cut. -/
def dropBytes : Nat → List Char → Option (List Char)
  | 0, cs => some cs
  | _ + 1, [] => none
  | n + 1, c :: cs =>
    if c.utf8Size ≤ n + 1 then dropBytes (n + 1 - c.utf8Size) cs else none

/-- A line that is being read. -/
structure LineDraft where
  /-- The characters that stand, in reverse. -/
  text : List Char
  /-- The sizes of the clusters that stand, the last one first. -/
  sizes : List Nat

namespace LineDraft

/-- Take in one cluster. -/
def take (d : LineDraft) (cluster : List Char) : Option LineDraft :=
  if cluster = ['\x08'] then
    match d.sizes with
    | [] => some d
    | n :: sizes => (dropBytes n d.text).map (⟨·, sizes⟩)
  else some ⟨cluster.reverse ++ d.text, byteLength cluster % 256 :: d.sizes⟩

end LineDraft

/-- A line after all its backspaces; `none` if one of them breaks it. -/
def rubOut (line : String) : Option String :=
  ((clusters line.toList).foldlM LineDraft.take ⟨[], []⟩).map fun d =>
    String.ofList d.text.reverse

end BoxScript.Text
