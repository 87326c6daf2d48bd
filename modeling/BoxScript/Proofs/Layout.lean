import BoxScript.Proofs.Lexing
import Mathlib.Data.String.Basic

/-!
# The layout of a source

A source is a row of tokens with gaps before, between and behind them: blanks and comments. `Laid`
is that as a relation, with the place of each token, and a text is scanned into the tokens that it
is laid out with (`scan_eq_ok_iff`). If there are characters that are no token, then what stands
before the first of them is laid out (`laid_before_fault`).
-/

namespace BoxScript

/-! ## Bytes -/

theorem byteLength_eq_utf8Len (cs : List Char) : byteLength cs = String.utf8Len cs := by
  have hfrom : ∀ n, cs.foldl (fun n c => n + c.utf8Size) n = n + String.utf8Len cs := by
    induction cs with
    | nil => simp
    | cons c cs ih =>
      intro n
      rw [List.foldl_cons, ih, String.utf8Len_cons]
      omega
  rw [byteLength, hfrom, Nat.zero_add]

@[simp] theorem byteLength_nil : byteLength [] = 0 := rfl

@[simp] theorem byteLength_append (a b : List Char) :
    byteLength (a ++ b) = byteLength a + byteLength b := by
  simp [byteLength_eq_utf8Len]

@[simp] theorem byteLength_toList (s : String) : byteLength s.toList = s.utf8ByteSize := by
  rw [byteLength_eq_utf8Len, ← String.utf8ByteSize_ofList, String.ofList_toList]

/-- A text that is not empty takes at least one byte. -/
theorem byteLength_pos {cs : List Char} (h : cs ≠ []) : 0 < byteLength cs := by
  rw [byteLength_eq_utf8Len, Nat.pos_iff_ne_zero]
  exact fun hzero => h (String.utf8Len_eq_zero.1 hzero)

/-- Of a text, as many bytes are the same characters. -/
theorem eq_of_byteLength_eq {a b c d : List Char} (h : a ++ b = c ++ d)
    (hbytes : byteLength a = byteLength c) : a = c := by
  have hnil : ∀ {x y : List Char}, byteLength x = byteLength (x ++ y) → y = [] := by
    intro x y hxy
    by_contra hy
    have hpos := byteLength_pos hy
    rw [byteLength_append] at hxy
    omega
  rcases List.append_eq_append_iff.1 h with ⟨x, rfl, -⟩ | ⟨x, rfl, -⟩
  · rw [hnil hbytes, List.append_nil]
  · rw [hnil hbytes.symm, List.append_nil]

/-! ## Gaps -/

/-- Blanks and comments in a row. A comment reaches to the line feed that ends its line, or to the
end of the source where the gap is `last`. -/
inductive Text.Gap (last : Prop) : List Char → Prop
  | nil : Gap last []
  | blank {c : Char} {cs : List Char} (hc : Text.isGap c = true) (h : Gap last cs) :
    Gap last (c :: cs)
  | comment {text cs : List Char} (htext : '\n' ∉ text) (h : Gap last cs) :
    Gap last ('/' :: '/' :: (text ++ '\n' :: cs))
  | unended {text : List Char} (hlast : last) (htext : '\n' ∉ text) : Gap last ('/' :: '/' :: text)

/-- A text with its tokens, at `offset` of the source. -/
inductive Laid : Nat → List Char → Tokens → Prop
  | gap {offset : Nat} {gap : List Char} (hgap : Text.Gap True gap) : Laid offset gap []
  | token {offset : Nat} {gap w rest : List Char} {t : Token} {ts : Tokens}
    (hgap : Text.Gap False gap) (hw : (Lexeme.token t).Front w rest)
    (hrest : Laid (offset + byteLength (gap ++ w)) rest ts) :
    Laid offset (gap ++ (w ++ rest))
      ((t, ⟨offset + byteLength gap, offset + byteLength (gap ++ w)⟩) :: ts)

theorem Lexeme.Front.exists_cons {lexeme : Lexeme} {w rest : List Char}
    (h : lexeme.Front w rest) : ∃ c cs, w = c :: cs := by
  cases h with
  | blank | comment => exact ⟨_, _, rfl⟩
  | token hw =>
    cases hw with
    | word | int | str => exact ⟨_, _, rfl⟩
    | sign s => cases s <;> exact ⟨_, _, rfl⟩

/-- No token begins with a blank. -/
theorem Token.Spells.not_blank {t : Token} {c : Char} {cs : List Char} (h : t.Spells (c :: cs)) :
    Text.isGap c = false := by
  generalize hw : c :: cs = w at h
  cases h with
  | word hc => cases hw; exact isGap_of_isNameStart hc
  | int hd => cases hw; exact isGap_of_isDigit hd
  | str => cases hw; rfl
  | sign s => cases s <;> cases hw <;> rfl

/-- A lexeme stays what it is before a part of what was behind it, and before a line feed. -/
theorem Lexeme.Front.before {lexeme : Lexeme} {w rest rest' : List Char}
    (h : lexeme.Front w rest) (hrest : ∀ d ∈ rest'.head?, d ∈ rest.head? ∨ d = '\n') :
    lexeme.Front w rest' := by
  cases h with
  | blank hc => exact .blank hc
  | comment htext hends =>
    refine .comment htext fun d hd => ?_
    rcases hrest d hd with hd | hd
    · exact hends d hd
    · exact hd
  | @token t _ _ hw hends =>
    refine .token hw fun d hd => ?_
    rcases hrest d hd with hd | rfl
    · exact hends d hd
    · exact growsBy_blank t rfl

/-! ## Scanning and the layout -/

section Scanning

variable {found : Tokens} {offset : Nat} {w rest : List Char}

theorem scanFrom_gap_front (h : Lexeme.gap.Front w rest) :
    Token.scanFrom found offset (w ++ rest)
      = Token.scanFrom found (offset + byteLength w) rest := by
  obtain ⟨c, cs, rfl⟩ := h.exists_cons
  rw [List.cons_append, Token.scanFrom]
  simp [read_of_front h]

/-- Taking a token moves on by its bytes and notes where it stood. -/
theorem scanFrom_token_front {t : Token} (h : (Lexeme.token t).Front w rest) :
    Token.scanFrom found offset (w ++ rest) =
      Token.scanFrom ((t, ⟨offset, offset + byteLength w⟩) :: found) (offset + byteLength w)
        rest := by
  obtain ⟨c, cs, rfl⟩ := h.exists_cons
  rw [List.cons_append, Token.scanFrom]
  simp [read_of_front h]

/-- A gap is passed over. -/
theorem scanFrom_gap {last : Prop} {gap : List Char} (h : Text.Gap last gap)
    (hlast : last → rest = []) :
    Token.scanFrom found offset (gap ++ rest)
      = Token.scanFrom found (offset + byteLength gap) rest := by
  -- by the pieces of the gap; a comment is passed over as a whole, and its line feed after it
  induction h generalizing offset with
  | nil => rfl
  | @blank c cs hc _ ih =>
    have hfront : Lexeme.gap.Front [c] (cs ++ rest) := .blank hc
    rw [← List.singleton_append, List.append_assoc, scanFrom_gap_front hfront, ih,
      byteLength_append, Nat.add_assoc]
  | @comment text cs htext _ ih =>
    have hfront : Lexeme.gap.Front ('/' :: '/' :: text) ('\n' :: (cs ++ rest)) := by
      refine .comment htext ?_
      rintro d ⟨⟩
      rfl
    have hfeed : Lexeme.gap.Front ['\n'] (cs ++ rest) := .blank rfl
    have hsplit : '/' :: '/' :: (text ++ '\n' :: cs) = ('/' :: '/' :: text) ++ (['\n'] ++ cs) := by
      simp
    rw [hsplit, byteLength_append, byteLength_append, ← Nat.add_assoc, ← Nat.add_assoc, ← ih,
      ← scanFrom_gap_front hfeed]
    simp only [List.append_assoc]
    exact scanFrom_gap_front hfront
  | @unended text hlast' htext =>
    obtain rfl := hlast hlast'
    exact scanFrom_gap_front (.comment htext (by simp))

/-- A text that is laid out as tokens and gaps is scanned as those tokens. -/
theorem scanFrom_of_laid {cs : List Char} {ts : Tokens} (h : Laid offset cs ts) :
    Token.scanFrom found offset cs = .ok (found.reverse ++ ts) := by
  induction h generalizing found with
  | @gap offset gap hgap =>
    have hscan : Token.scanFrom found offset (gap ++ []) =
        Token.scanFrom found (offset + byteLength gap) [] := scanFrom_gap hgap fun _ => rfl
    rw [List.append_nil, Token.scanFrom] at hscan
    rw [hscan, List.append_nil]
  | token hgap hw _ ih =>
    rw [scanFrom_gap hgap False.elim, scanFrom_token_front hw, Nat.add_assoc, ← byteLength_append, ih,
      List.reverse_cons, List.append_assoc]
    rfl

/-- A gap goes on with a blank or a comment before it. -/
theorem Text.Gap.of_front {last : Prop} {gap : List Char} (hgap : Text.Gap last gap)
    (hw : Lexeme.gap.Front w (gap ++ rest))
    (hrest : (last ∧ rest = []) ∨ ∃ c cs, rest = c :: cs ∧ Text.isGap c = false) :
    Text.Gap last (w ++ gap) := by
  cases hw with
  | blank hc => exact .blank hc hgap
  | comment htext hends =>
    -- what stands behind a comment is a line feed or the end of the source
    cases hgap with
    | nil =>
      rcases hrest with ⟨hlast, -⟩ | ⟨c, cs, rfl, hc⟩
      · rw [List.append_nil]
        exact .unended hlast htext
      · obtain rfl := hends c rfl
        cases hc
    | blank hc h =>
      obtain rfl := hends _ rfl
      exact .comment htext h
    | comment => cases hends _ rfl
    | unended => cases hends _ rfl

theorem Laid.of_gap_front {ts : Tokens} (h : Laid (offset + byteLength w) rest ts)
    (hw : Lexeme.gap.Front w rest) : Laid offset (w ++ rest) ts := by
  generalize hoffset : offset + byteLength w = stop at h
  cases h with
  | gap hgap =>
    rw [← List.append_nil rest] at hw
    exact .gap (hgap.of_front hw (.inl ⟨trivial, rfl⟩))
  | @token _ gap w' rest' t ts hgap hw' hrest =>
    subst hoffset
    obtain ⟨c, cs, rfl⟩ := hw'.exists_cons
    have hblank : Text.isGap c = false := by
      cases hw' with
      | token hspells => exact hspells.not_blank
    have hlonger := hgap.of_front hw (.inr ⟨c, _, rfl, hblank⟩)
    have hrest' : Laid (offset + byteLength (w ++ gap ++ c :: cs)) rest' ts := by
      simpa only [byteLength_append, Nat.add_assoc] using hrest
    simpa only [List.append_assoc, byteLength_append, Nat.add_assoc]
      using Laid.token hlonger hw' hrest'

theorem Laid.of_token_front {t : Token} {ts : Tokens} (hw : (Lexeme.token t).Front w rest)
    (h : Laid (offset + byteLength w) rest ts) :
    Laid offset (w ++ rest) ((t, ⟨offset, offset + byteLength w⟩) :: ts) :=
  Laid.token Text.Gap.nil hw h

/-- A text begins with a gap or with a token, or the scanner stops there. -/
theorem scanFrom_cases (found : Tokens) (offset : Nat) (c : Char) (cs : List Char) :
    (∃ w rest, c :: cs = w ++ rest ∧ Lexeme.gap.Front w rest) ∨
      (∃ t w rest, c :: cs = w ++ rest ∧ (Lexeme.token t).Front w rest) ∨
        ∃ e, Token.scanFrom found offset (c :: cs) = .error e ∧ e.span.start = offset := by
  rcases hread : Lexeme.read c cs with ⟨lexeme, more⟩
  cases lexeme with
  | gap =>
    obtain ⟨w, rest, rfl, -, hw⟩ := takes_of_read hread (by simp)
    exact .inl ⟨c :: w, rest, rfl, hw⟩
  | token t =>
    obtain ⟨w, rest, rfl, -, hw⟩ := takes_of_read hread (by simp)
    exact .inr (.inl ⟨t, c :: w, rest, rfl, hw⟩)
  | fault =>
    rw [Token.scanFrom, hread]
    exact .inr (.inr ⟨_, rfl, rfl⟩)

theorem Lexeme.Front.length_lt {lexeme : Lexeme} {cs : List Char} (h : lexeme.Front w rest)
    (hcs : cs = w ++ rest) : rest.length < cs.length := by
  obtain ⟨c, w, rfl⟩ := h.exists_cons
  rw [hcs, List.length_append, List.length_cons]
  omega

/-- Whatever is scanned is laid out so. -/
theorem laid_of_scanFrom {cs : List Char} {ts : Tokens}
    (h : Token.scanFrom found offset cs = .ok ts) :
    ∃ ts', ts = found.reverse ++ ts' ∧ Laid offset cs ts' := by
  induction hlength : cs.length using Nat.strongRecOn generalizing found offset cs with
  | ind n ih =>
    subst hlength
    cases cs with
    | nil =>
      rw [Token.scanFrom] at h
      cases h
      exact ⟨[], (List.append_nil _).symm, .gap .nil⟩
    | cons c cs =>
      rcases scanFrom_cases found offset c cs with
        ⟨w, rest, hsplit, hw⟩ | ⟨t, w, rest, hsplit, hw⟩ | ⟨e, he, -⟩
      · rw [hsplit, scanFrom_gap_front hw] at h
        obtain ⟨ts', rfl, hlaid⟩ := ih _ (hw.length_lt hsplit) h rfl
        rw [hsplit]
        exact ⟨ts', rfl, hlaid.of_gap_front hw⟩
      · rw [hsplit, scanFrom_token_front hw] at h
        obtain ⟨ts', rfl, hlaid⟩ := ih _ (hw.length_lt hsplit) h rfl
        rw [hsplit]
        exact ⟨_, by simp, .of_token_front hw hlaid⟩
      · rw [he] at h
        cases h

/-- A source is scanned as those tokens if and only if they are laid out in it. -/
theorem scan_eq_ok_iff {source : String} {ts : Tokens} :
    Token.scan source = .ok ts ↔ Laid 0 source.toList ts := by
  constructor
  · intro h
    obtain ⟨ts', rfl, hlaid⟩ := laid_of_scanFrom h
    exact hlaid
  · exact scanFrom_of_laid

/-- What stands before the first characters that are no token is laid out with tokens. -/
theorem laid_before_fault {cs : List Char} {e : SyntaxError}
    (h : Token.scanFrom found offset cs = .error e) :
    ∃ before after ts, cs = before ++ after ∧ e.span.start = offset + byteLength before ∧
      Laid offset before ts := by
  -- the parts in front of the fault are laid out as before, with the rest of the text cut off
  induction hlength : cs.length using Nat.strongRecOn generalizing found offset cs with
  | ind n ih =>
    subst hlength
    cases cs with
    | nil =>
      rw [Token.scanFrom] at h
      cases h
    | cons c cs =>
      rcases scanFrom_cases found offset c cs with
        ⟨w, rest, hsplit, hw⟩ | ⟨t, w, rest, hsplit, hw⟩ | ⟨e', he, hstart⟩
      · rw [hsplit, scanFrom_gap_front hw] at h
        obtain ⟨before, after, ts, rfl, hstart, hlaid⟩ := ih _ (hw.length_lt hsplit) h rfl
        have hw' : Lexeme.gap.Front w before := hw.before fun d hd => .inl (by simp_all)
        refine ⟨w ++ before, after, ts, by rw [hsplit, List.append_assoc], ?_,
          hlaid.of_gap_front hw'⟩
        rw [hstart, byteLength_append, Nat.add_assoc]
      · rw [hsplit, scanFrom_token_front hw] at h
        obtain ⟨before, after, ts, rfl, hstart, hlaid⟩ := ih _ (hw.length_lt hsplit) h rfl
        have hw' : (Lexeme.token t).Front w before := hw.before fun d hd => .inl (by simp_all)
        refine ⟨w ++ before, after, _, by rw [hsplit, List.append_assoc], ?_,
          .of_token_front hw' hlaid⟩
        rw [hstart, byteLength_append, Nat.add_assoc]
      · rw [he] at h
        cases h
        exact ⟨[], c :: cs, [], rfl, hstart, .gap .nil⟩

end Scanning

end BoxScript
