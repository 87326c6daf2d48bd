import BoxScript.Proofs.Partition

/-!
# Escapes

Where a string ends is settled before its escapes are looked at: a backslash takes the character
behind it along, and the string ends at the first quote that is not taken along. So a text that is
written between quotes has to be escaped in such a way that no quote of its own ends the string,
that no backslash of its own hides the last quote, and that what is read is the text again.
`Text.Written` relates a text to all that may stand for it between the quotes. Every text has such a
form, with or without escapes for the characters that would break or move the line.
-/

namespace BoxScript

namespace Text

/-- The letters that make an escape behind a backslash, each with the character that it stands
for. -/
def escapes : List (Char × Char) :=
  [('n', '\n'), ('t', '\t'), ('r', '\r'), ('\\', '\\'), ('"', '"')]

/-- The first text is written as the second one: each character as itself, which a quote and a
backslash may not be, or as its escape. -/
inductive Written : List Char → List Char → Prop
  | nil : Written [] []
  | plain {c : Char} {cs w : List Char} (hquote : c ≠ '"') (hslash : c ≠ '\\') (h : Written cs w) :
    Written (c :: cs) (c :: w)
  | escape {letter c : Char} {cs w : List Char} (hletter : (letter, c) ∈ escapes)
    (h : Written cs w) : Written (c :: cs) ('\\' :: letter :: w)

/-- No letter behind a backslash ends a line. -/
theorem ne_feed_of_mem_escapes {letter c : Char} (h : (letter, c) ∈ escapes) : letter ≠ '\n' := by
  rintro rfl
  simp [escapes] at h

/-- Nothing that is written ends the string too early. -/
theorem Written.inside {cs w : List Char} (h : Written cs w) : Inside w := by
  induction h with
  | nil => exact .nil
  | plain hquote hslash _ ih => exact .plain hquote hslash ih
  | escape hletter _ ih => exact .pair (ne_feed_of_mem_escapes hletter) ih

/-- An escape is read as the one character that it stands for. -/
theorem unescapeFrom_escape {letter c : Char} (h : (letter, c) ∈ escapes)
    (written cs : List Char) :
    unescapeFrom written ('\\' :: letter :: cs) = unescapeFrom (c :: written) cs := by
  simp only [escapes, List.mem_cons, Prod.mk.injEq, List.not_mem_nil, or_false] at h
  obtain ⟨rfl, rfl⟩ | ⟨rfl, rfl⟩ | ⟨rfl, rfl⟩ | ⟨rfl, rfl⟩ | ⟨rfl, rfl⟩ := h <;>
    rw [unescapeFrom]

/-- What is written is read. -/
theorem Written.unescape_eq {cs w : List Char} (h : Written cs w) : unescape w = cs := by
  have hfrom : ∀ written, unescapeFrom written w = written.reverse ++ cs := by
    induction h with
    | nil => simp [unescapeFrom]
    | plain _ hslash _ ih =>
      intro written
      rw [unescapeFrom]
      · rw [ih]
        simp
      all_goals intros; contradiction
    | escape hletter _ ih =>
      intro written
      rw [unescapeFrom_escape hletter, ih]
      simp
  exact hfrom []

/-- A text between quotes that is written character by character. -/
def literal (write : Char → List Char) (s : String) : String :=
  "\"" ++ String.ofList (s.toList.flatMap write) ++ "\""

/-- A character between quotes, escaped only where it has to be. -/
def escapeSign : Char → List Char
  | '"' => ['\\', '"']
  | '\\' => ['\\', '\\']
  | c => [c]

/-- A character between quotes, escaped also where it would break or move the line. -/
def escapeLine : Char → List Char
  | '\n' => ['\\', 'n']
  | '\t' => ['\\', 't']
  | '\r' => ['\\', 'r']
  | c => escapeSign c

theorem written_escapeSign (c : Char) {cs w : List Char} (h : Written cs w) :
    Written (c :: cs) (escapeSign c ++ w) := by
  unfold escapeSign
  split
  case h_1 | h_2 => exact .escape (by decide) h
  case h_3 hquote hslash => exact .plain hquote hslash h

theorem written_escapeLine (c : Char) {cs w : List Char} (h : Written cs w) :
    Written (c :: cs) (escapeLine c ++ w) := by
  unfold escapeLine
  split
  case h_1 | h_2 | h_3 => exact .escape (by decide) h
  case h_4 => exact written_escapeSign c h

/-- What writes every character in a way that is read back writes every text so. -/
theorem written_flatMap {write : Char → List Char}
    (hwrite : ∀ c {cs w : List Char}, Written cs w → Written (c :: cs) (write c ++ w))
    (cs : List Char) : Written cs (cs.flatMap write) := by
  induction cs with
  | nil => exact .nil
  | cons c cs ih => exact hwrite c ih

end Text

/-- A text that is written between quotes is read as one string, which is the text. -/
theorem scan_written {s : String} {w : List Char} (h : Text.Written s.toList w) :
    Token.scan ("\"" ++ String.ofList w ++ "\"")
      = .ok [(.str s, ⟨0, ("\"" ++ String.ofList w ++ "\"").utf8ByteSize⟩)] := by
  have hspells := Token.Spells.str h.inside
  rw [h.unescape_eq, String.ofList_toList] at hspells
  have hquoted : "\"" ++ String.ofList w ++ "\"" = String.ofList ('"' :: (w ++ ['"'])) := by
    apply String.toList_inj.1
    simp
  rw [hquoted]
  exact scan_of_spells hspells

/-- **Every text can be written as a string.** With its quotes and backslashes escaped, and all
other characters as they are, a text between quotes is read as a single token, which reaches over
all of it and has the text as its content. The same holds if line feeds, tabs and carriage returns
are escaped too. -/
theorem texts_expressible (s : String) :
    Token.scan (Text.literal Text.escapeSign s)
      = .ok [(.str s, ⟨0, (Text.literal Text.escapeSign s).utf8ByteSize⟩)] ∧
    Token.scan (Text.literal Text.escapeLine s)
      = .ok [(.str s, ⟨0, (Text.literal Text.escapeLine s).utf8ByteSize⟩)] :=
  ⟨scan_written (Text.written_flatMap Text.written_escapeSign s.toList),
    scan_written (Text.written_flatMap Text.written_escapeLine s.toList)⟩

example : Text.literal Text.escapeLine "a\\\"\n" = "\"a\\\\\\\"\\n\"" := by decide

end BoxScript
