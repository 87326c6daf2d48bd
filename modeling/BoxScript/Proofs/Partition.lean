import BoxScript.Proofs.Layout
import Mathlib.Data.List.Forall2

/-!
# Tokens part their source

The spans of the tokens lie in the source one behind the other, what stands between them is blanks
and comments, and each token is read from its own text alone (`scan_parts`). As no token grows by a
blank, the texts of the tokens can be laid out anew, with other gaps between them, and the tokens
are the same (`scan_relaid`).
-/

namespace BoxScript

/-! ## Spans and texts -/

/-- The text `w` stands in `source` on the bytes of the span. It begins and ends between two
characters, since texts are rows of whole characters. -/
def Span.Covers (s : Span) (source w : String) : Prop :=
  ∃ before after, source = before ++ w ++ after ∧ s.start = before.utf8ByteSize ∧
    s.stop = (before ++ w).utf8ByteSize

/-- The same in a text that stands at `offset` of the source. -/
def Span.CoversFrom (s : Span) (offset : Nat) (cs w : List Char) : Prop :=
  ∃ before after, cs = before ++ (w ++ after) ∧
    s = ⟨offset + byteLength before, offset + byteLength (before ++ w)⟩

theorem Span.CoversFrom.behind {s : Span} {offset : Nat} {cs w front : List Char}
    (h : s.CoversFrom (offset + byteLength front) cs w) : s.CoversFrom offset (front ++ cs) w := by
  obtain ⟨before, after, rfl, rfl⟩ := h
  refine ⟨front ++ before, after, by simp, ?_⟩
  simp [Nat.add_assoc]

theorem Span.CoversFrom.covers {s : Span} {source : String} {w : List Char}
    (h : s.CoversFrom 0 source.toList w) : s.Covers source (String.ofList w) := by
  obtain ⟨before, after, hsource, rfl⟩ := h
  refine ⟨String.ofList before, String.ofList after, ?_, ?_, ?_⟩
  · rw [← String.toList_inj, hsource]
    simp
  · rw [← byteLength_toList, String.toList_ofList, Nat.zero_add]
  · rw [← byteLength_toList, String.toList_append, String.toList_ofList, String.toList_ofList]
    exact Nat.zero_add _

/-- One text stands on a span. -/
theorem Span.Covers.unique {s : Span} {source w w' : String} (h : s.Covers source w)
    (h' : s.Covers source w') : w = w' := by
  obtain ⟨before, after, rfl, hstart, hstop⟩ := h
  obtain ⟨before', after', hsource, hstart', hstop'⟩ := h'
  rw [← String.toList_inj] at hsource
  simp only [String.toList_append] at hsource
  have hbytes := hstop.symm.trans hstop'
  rw [← byteLength_toList, ← byteLength_toList, String.toList_append, String.toList_append]
    at hbytes
  have hboth := eq_of_byteLength_eq hsource hbytes
  have hbefore := hstart.symm.trans hstart'
  rw [← byteLength_toList, ← byteLength_toList] at hbefore
  rw [eq_of_byteLength_eq hboth hbefore] at hboth
  exact String.toList_injective (List.append_cancel_left hboth)

/-- The spans between the tokens, each of which begins where the one before it ends or at
`start`. -/
def Tokens.gapsFrom (start : Nat) : Tokens → List Span
  | [] => []
  | (_, s) :: ts => ⟨start, s.start⟩ :: gapsFrom s.stop ts

/-- Where the last token ends; `start` if there is none. -/
def Tokens.endFrom (start : Nat) : Tokens → Nat
  | [] => start
  | (_, s) :: ts => endFrom s.stop ts

/-- The source is parted by the spans of the tokens. -/
structure Tokens.Part (ts : Tokens) (source : String) : Prop where
  inside : ∀ p ∈ ts, p.2.start < p.2.stop ∧ p.2.stop ≤ source.utf8ByteSize
  boundaries : ∀ p ∈ ts, String.Pos.Raw.IsValid source ⟨p.2.start⟩ ∧
    String.Pos.Raw.IsValid source ⟨p.2.stop⟩
  ordered : ts.Pairwise fun p q => p.2.stop ≤ q.2.start
  /-- What stands before a token, behind the one before it, is a gap. -/
  between : ∀ s ∈ ts.gapsFrom 0, ∃ gap, s.Covers source gap ∧ Text.Gap False gap.toList
  /-- So is what stands behind the last token, where a comment may end with the source. -/
  behind : ∃ gap, Span.Covers ⟨ts.endFrom 0, source.utf8ByteSize⟩ source gap ∧
    Text.Gap True gap.toList
  /-- The text of a token is read as that token alone. -/
  alone : ∀ p ∈ ts, ∃ w, p.2.Covers source w ∧
    Token.scan w = .ok [(p.1, ⟨0, w.utf8ByteSize⟩)]

section Laid

variable {offset : Nat} {cs : List Char} {ts : Tokens}

/-- A part of the text behind the first token stands on the same span of the whole. -/
theorem Laid.coversFrom_behind {gap w rest text : List Char} {s : Span}
    (h : s.CoversFrom (offset + byteLength (gap ++ w)) rest text) :
    s.CoversFrom offset (gap ++ (w ++ rest)) text := by
  rw [← List.append_assoc]
  exact h.behind

theorem Laid.spells (h : Laid offset cs ts) :
    ∀ p ∈ ts, ∃ w, p.2.CoversFrom offset cs w ∧ p.1.Spells w := by
  induction h with
  | gap => exact fun p hp => nomatch hp
  | @token offset gap w rest t ts hgap hw hrest ih =>
    intro p hp
    rcases List.mem_cons.1 hp with rfl | hp
    · cases hw with
      | token hspells => exact ⟨w, ⟨gap, rest, rfl, rfl⟩, hspells⟩
    · obtain ⟨text, hcovers, hspells⟩ := ih p hp
      exact ⟨text, coversFrom_behind hcovers, hspells⟩

theorem Laid.ordered (h : Laid offset cs ts) : ts.Pairwise fun p q => p.2.stop ≤ q.2.start := by
  induction h with
  | gap => exact .nil
  | token hgap hw hrest ih =>
    refine List.pairwise_cons.2 ⟨fun q hq => ?_, ih⟩
    obtain ⟨w, ⟨before, after, hsplit, hspan⟩, -⟩ := hrest.spells q hq
    rw [hspan]
    exact Nat.le_add_right _ _

theorem Laid.gaps (h : Laid offset cs ts) :
    ∀ s ∈ ts.gapsFrom offset, ∃ gap, s.CoversFrom offset cs gap ∧ Text.Gap False gap := by
  induction h with
  | gap => exact fun s hs => nomatch hs
  | @token offset gap w rest t ts hgap hw hrest ih =>
    intro s hs
    rw [Tokens.gapsFrom] at hs
    rcases List.mem_cons.1 hs with rfl | hs
    · exact ⟨gap, ⟨[], w ++ rest, rfl, rfl⟩, hgap⟩
    · obtain ⟨text, hcovers, htext⟩ := ih s hs
      exact ⟨text, coversFrom_behind hcovers, htext⟩

theorem Laid.lastGap (h : Laid offset cs ts) : ∃ gap, Text.Gap True gap ∧
    Span.CoversFrom ⟨ts.endFrom offset, offset + byteLength cs⟩ offset cs gap := by
  induction h with
  | gap hgap => exact ⟨_, hgap, [], [], (List.append_nil _).symm, rfl⟩
  | @token offset gap w rest t ts hgap hw hrest ih =>
    obtain ⟨text, htext, hcovers⟩ := ih
    refine ⟨text, htext, ?_⟩
    rw [Nat.add_assoc, ← byteLength_append, List.append_assoc] at hcovers
    exact coversFrom_behind hcovers

end Laid

/-- The text of a token is read as the token. -/
theorem scan_of_spells {t : Token} {w : List Char} (h : t.Spells w) :
    Token.scan (String.ofList w) = .ok [(t, ⟨0, (String.ofList w).utf8ByteSize⟩)] := by
  have hfront : (Lexeme.token t).Front w [] := .token h (by simp)
  have hlaid : Laid 0 (w ++ []) [(t, ⟨0, 0 + byteLength w⟩)] := .of_token_front hfront (.gap .nil)
  rw [scan_eq_ok_iff, String.toList_ofList, ← byteLength_toList, String.toList_ofList]
  rwa [List.append_nil, Nat.zero_add] at hlaid

theorem Span.Covers.stop_le {s : Span} {source w : String} (h : s.Covers source w) :
    s.start + w.utf8ByteSize = s.stop ∧ s.stop ≤ source.utf8ByteSize := by
  obtain ⟨before, after, rfl, hstart, hstop⟩ := h
  simp only [String.utf8ByteSize_append] at hstop ⊢
  omega

theorem Span.Covers.isValid {s : Span} {source w : String} (h : s.Covers source w) :
    String.Pos.Raw.IsValid source ⟨s.start⟩ ∧ String.Pos.Raw.IsValid source ⟨s.stop⟩ := by
  obtain ⟨before, after, rfl, hstart, hstop⟩ := h
  constructor
  · refine String.Pos.Raw.isValid_iff_exists_append.2 ⟨before, w ++ after, String.append_assoc .., ?_⟩
    rw [hstart]
    rfl
  · refine String.Pos.Raw.isValid_iff_exists_append.2 ⟨before ++ w, after, rfl, ?_⟩
    rw [hstop]
    rfl

theorem Token.Spells.ne_nil {t : Token} {w : List Char} (h : t.Spells w) : w ≠ [] := by
  have hfront : (Lexeme.token t).Front w [] := .token h (by simp)
  obtain ⟨c, cs, rfl⟩ := hfront.exists_cons
  exact List.cons_ne_nil c cs

theorem part_of_laid {source : String} {ts : Tokens} (h : Laid 0 source.toList ts) :
    ts.Part source := by
  -- each token stands where it is spelled; the rest follows from that and from the gaps
  have hspells : ∀ p ∈ ts, ∃ w, p.2.Covers source (String.ofList w) ∧ p.1.Spells w := by
    intro p hp
    obtain ⟨w, hcovers, hw⟩ := h.spells p hp
    exact ⟨w, hcovers.covers, hw⟩
  constructor
  case inside =>
    intro p hp
    obtain ⟨w, hcovers, hw⟩ := hspells p hp
    obtain ⟨hstop, hsize⟩ := hcovers.stop_le
    have hpos := byteLength_pos hw.ne_nil
    rw [← byteLength_toList, String.toList_ofList] at hstop
    exact ⟨by omega, hsize⟩
  case boundaries =>
    intro p hp
    obtain ⟨w, hcovers, -⟩ := hspells p hp
    exact hcovers.isValid
  case ordered => exact h.ordered
  case between =>
    intro s hs
    obtain ⟨gap, hcovers, hgap⟩ := h.gaps s hs
    exact ⟨String.ofList gap, hcovers.covers, by rwa [String.toList_ofList]⟩
  case behind =>
    obtain ⟨gap, hgap, hcovers⟩ := h.lastGap
    rw [Nat.zero_add, byteLength_toList] at hcovers
    exact ⟨String.ofList gap, hcovers.covers, by rwa [String.toList_ofList]⟩
  case alone =>
    intro p hp
    obtain ⟨w, hcovers, hw⟩ := hspells p hp
    exact ⟨String.ofList w, hcovers, scan_of_spells hw⟩

/-- **Tokens part their source**: the spans of the tokens are proper, lie in the source one behind
the other and begin and end between characters; all that stands between them is gaps; and each of
them is the span of a text that is read as that token alone. If the source is not read, then the
text before the first characters that are no token is. -/
theorem scan_parts (source : String) :
    match Token.scan source with
    | .ok ts => ts.Part source
    | .error e => ∃ before ts, Span.Covers ⟨0, e.span.start⟩ source before ∧
        Token.scan before = .ok ts := by
  split
  case h_1 ts h => exact part_of_laid (scan_eq_ok_iff.1 h)
  case h_2 e h =>
    obtain ⟨before, after, ts, hsplit, hstart, hlaid⟩ := laid_before_fault h
    refine ⟨String.ofList before, ts, Span.CoversFrom.covers ⟨[], after, hsplit, ?_⟩, ?_⟩
    · rw [hstart]
      rfl
    · rw [scan_eq_ok_iff, String.toList_ofList]
      exact hlaid

/-! ## A new layout -/

/-- A token in a new layout: its text, and the gap that is put behind it. -/
structure Piece where
  token : Token
  text : String
  gap : String

/-- The text begins with a blank. -/
def Text.BeginsBlank (s : String) : Prop := ∃ c ∈ s.toList.head?, Text.isGap c = true

namespace Piece

/-- The piece has the token and the text that stand on the span in the source. -/
def TakenFrom (source : String) (p : Token × Span) (piece : Piece) : Prop :=
  piece.token = p.1 ∧ p.2.Covers source piece.text

/-- The pieces in a row. -/
def row : List Piece → String
  | [] => ""
  | p :: ps => p.text ++ (p.gap ++ row ps)

/-- The tokens of the pieces, each with the place of its text in the row, which begins at
`offset`. -/
def tokensFrom (offset : Nat) : List Piece → Tokens
  | [] => []
  | p :: ps =>
    let stop := offset + p.text.utf8ByteSize
    (p.token, ⟨offset, stop⟩) :: tokensFrom (stop + p.gap.utf8ByteSize) ps

/-- The gaps are blanks and comments, and each begins with a blank. The last one may be empty, and a
comment in it may end with the source. -/
def Gapped : List Piece → Prop
  | [] => True
  | [p] => Text.Gap True p.gap.toList ∧ (p.gap ≠ "" → Text.BeginsBlank p.gap)
  | p :: q :: ps => Text.Gap False p.gap.toList ∧ Text.BeginsBlank p.gap ∧ Gapped (q :: ps)

end Piece

theorem Text.Gap.mono {last last' : Prop} {gap : List Char} (h : Text.Gap last gap)
    (hlast : last → last') : Text.Gap last' gap := by
  induction h with
  | nil => exact .nil
  | blank hc _ ih => exact .blank hc ih
  | comment htext _ ih => exact .comment htext ih
  | unended hend htext => exact .unended (hlast hend) htext

/-- Before a blank, and before the end of the source, no token grows. -/
theorem Token.Spells.front {t : Token} {w rest : List Char} (h : t.Spells w)
    (hrest : ∀ c ∈ rest.head?, Text.isGap c = true) : (Lexeme.token t).Front w rest :=
  .token h fun c hc => growsBy_blank t (hrest c hc)

theorem Piece.Gapped.first {p : Piece} {ps : List Piece} (h : Piece.Gapped (p :: ps)) :
    Text.Gap (ps = []) p.gap.toList ∧
      (∀ c ∈ (p.gap ++ Piece.row ps).toList.head?, Text.isGap c = true) ∧ Piece.Gapped ps := by
  -- the first character of a gap is that of all that stands behind the token
  have hblank : Text.BeginsBlank p.gap →
      ∀ c ∈ (p.gap ++ Piece.row ps).toList.head?, Text.isGap c = true := by
    rintro ⟨d, hd, hblank⟩ c hc
    rw [String.toList_append, List.mem_head?_append_of_mem_head? hd] at hc
    cases hc
    exact hblank
  cases ps with
  | nil =>
    obtain ⟨hgap, hbegins⟩ := h
    refine ⟨hgap.mono fun _ => rfl, ?_, trivial⟩
    by_cases hempty : p.gap = ""
    · simp [hempty, Piece.row]
    · exact hblank (hbegins hempty)
  | cons q qs =>
    obtain ⟨hgap, hbegins, hfurther⟩ := h
    exact ⟨hgap.mono (by simp), hblank hbegins, hfurther⟩

theorem laid_row {pieces : List Piece} (hspells : ∀ p ∈ pieces, p.token.Spells p.text.toList)
    (hgaps : Piece.Gapped pieces) {offset : Nat} {gap : List Char}
    (hgap : Text.Gap (pieces = []) gap) :
    Laid offset (gap ++ (Piece.row pieces).toList)
      (Piece.tokensFrom (offset + byteLength gap) pieces) := by
  induction pieces generalizing offset gap with
  | nil =>
    rw [Piece.row, String.toList_empty, List.append_nil]
    exact .gap (hgap.mono fun _ => trivial)
  | cons p ps ih =>
    obtain ⟨hbehind, hblank, hfurther⟩ := hgaps.first
    obtain ⟨hp, hps⟩ := List.forall_mem_cons.1 hspells
    have hrest : Laid (offset + byteLength (gap ++ p.text.toList))
        (p.gap.toList ++ (Piece.row ps).toList) _ := ih hps hfurther hbehind
    rw [← String.toList_append] at hrest
    have hlaid := Laid.token (hgap.mono (by simp)) (hp.front hblank) hrest
    simpa [Piece.row, Piece.tokensFrom, Nat.add_assoc] using hlaid

/-- The texts that stand on the spans of the tokens spell the tokens. -/
theorem Laid.spells_texts {source : String} {ts : Tokens} (h : Laid 0 source.toList ts)
    {pieces : List Piece} (htexts : List.Forall₂ (Piece.TakenFrom source) ts pieces) :
    ∀ piece ∈ pieces, piece.token.Spells piece.text.toList := by
  have hspells := h.spells
  clear h
  induction htexts with
  | nil => exact fun piece hpiece => nomatch hpiece
  | @cons p piece ts pieces hfirst _ ih =>
    obtain ⟨hp, hts⟩ := List.forall_mem_cons.1 hspells
    refine List.forall_mem_cons.2 ⟨?_, ih hts⟩
    obtain ⟨htoken, hcovers⟩ := hfirst
    obtain ⟨w, hw, hspells⟩ := hp
    rw [htoken, hcovers.unique hw.covers, String.toList_ofList]
    exact hspells

/-- **A source can be laid out anew**: the texts of its tokens, with gaps between them that begin
with a blank, are read as the same tokens, each where its text stands now. -/
theorem scan_relaid {source : String} {ts : Tokens} (hscan : Token.scan source = .ok ts)
    {first : String} {pieces : List Piece}
    (htexts : List.Forall₂ (Piece.TakenFrom source) ts pieces)
    (hfirst : Text.Gap (pieces = []) first.toList) (hgaps : Piece.Gapped pieces) :
    Token.scan (first ++ Piece.row pieces)
      = .ok (Piece.tokensFrom first.utf8ByteSize pieces) := by
  have hlaid := scan_eq_ok_iff.1 hscan
  have hspells := hlaid.spells_texts htexts
  rw [scan_eq_ok_iff, String.toList_append, ← byteLength_toList, ← Nat.zero_add (byteLength _)]
  exact laid_row hspells hgaps hfirst

namespace Halves

/-- The tokens of `a/b`. -/
def tokens : Tokens := [(.ident "a", ⟨0, 1⟩), (.sign .slash, ⟨1, 2⟩), (.ident "b", ⟨2, 3⟩)]

/-- Each of them with a new gap behind it. -/
def pieces : List Piece := [⟨.ident "a", "a", "\n"⟩, ⟨.sign .slash, "/", " // by\n"⟩,
  ⟨.ident "b", "b", "\t//"⟩]

end Halves

/-- A comment behind the sign that begins one. -/
theorem scan_relaid_halves :
    Token.scan "a/b" = .ok Halves.tokens ∧
      List.Forall₂ (Piece.TakenFrom "a/b") Halves.tokens Halves.pieces ∧
      Text.Gap (Halves.pieces = []) "// half\n".toList ∧ Piece.Gapped Halves.pieces ∧
      Token.scan "// half\na\n/ // by\nb\t//" =
        .ok [(.ident "a", ⟨8, 9⟩), (.sign .slash, ⟨10, 11⟩), (.ident "b", ⟨18, 19⟩)] := by
  have hscan : Token.scan "a/b" = .ok Halves.tokens := by decide +kernel
  have htexts : List.Forall₂ (Piece.TakenFrom "a/b") Halves.tokens Halves.pieces :=
    .cons ⟨rfl, "", "/b", rfl, rfl, rfl⟩ (.cons ⟨rfl, "a", "b", rfl, rfl, rfl⟩
      (.cons ⟨rfl, "a/", "", rfl, rfl, rfl⟩ .nil))
  have hfirst : Text.Gap (Halves.pieces = []) "// half\n".toList :=
    have hword : '\n' ∉ " half".toList := by decide
    .comment hword .nil
  have hgaps : Piece.Gapped Halves.pieces := by
    refine ⟨.blank rfl .nil, ⟨'\n', rfl, rfl⟩, ?_⟩
    have hword : '\n' ∉ " by".toList := by decide
    refine ⟨.blank rfl (.comment hword .nil), ⟨' ', rfl, rfl⟩, ?_⟩
    have hbare : '\n' ∉ ([] : List Char) := List.not_mem_nil
    exact ⟨.blank rfl (.unended trivial hbare), fun _ => ⟨'\t', rfl, rfl⟩⟩
  exact ⟨hscan, htexts, hfirst, hgaps, scan_relaid hscan htexts hfirst hgaps⟩

end BoxScript
