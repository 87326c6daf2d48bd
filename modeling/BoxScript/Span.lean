/-!
# Places in a source text

Offsets count the bytes of the text in UTF-8.
-/

namespace BoxScript

/-- The bytes of a source text from `start` up to, not including, `stop`. -/
structure Span where
  start : Nat
  stop : Nat
  deriving DecidableEq, Inhabited, Repr

namespace Span

/-- The one place at `offset`; the end of a text is shown this way. -/
def point (offset : Nat) : Span := ⟨offset, offset + 1⟩

/-- A span as diagnostics show it. -/
def text (s : Span) : String := toString s.start ++ ".." ++ toString s.stop

end Span

/-- The number of bytes of a text in UTF-8. -/
def byteLength (cs : List Char) : Nat := cs.foldl (fun n c => n + c.utf8Size) 0

end BoxScript
