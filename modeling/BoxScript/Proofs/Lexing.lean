import BoxScript.Token.Lexeme
import Mathlib.Data.List.TakeWhile

/-!
# Lexemes

The shapes of tokens and of what stands between them, without any reader. `Token.Spells` says which
texts a token has, and `Token.growsBy` which character behind such a text makes a longer lexeme of
it. A blank is a lexeme of its own, and a comment is one up to the end of its line. `Lexeme.Front`
puts that together, and the reader agrees with it in both directions (`read_eq_iff`): what a lexeme
is hangs on its own text and on one character behind it, and on nothing else.
-/

namespace BoxScript

/-! ## Insides of strings -/

/-- The texts that may stand between the quotes of a string: plain characters, and backslashes with
a character behind them that is no line feed. -/
inductive Text.Inside : List Char → Prop
  | nil : Inside []
  | plain {c : Char} {cs : List Char} (hquote : c ≠ '"') (hslash : c ≠ '\\') (h : Inside cs) :
    Inside (c :: cs)
  | pair {c : Char} {cs : List Char} (hc : c ≠ '\n') (h : Inside cs) : Inside ('\\' :: c :: cs)

theorem stringReach_inside {w : List Char} (h : Text.Inside w) (n : Nat) (rest : List Char) :
    Text.stringReach n (w ++ '"' :: rest) = (true, n + w.length + 1) := by
  induction h generalizing n with
  | nil =>
    rw [List.nil_append, Text.stringReach]
    rfl
  | @plain c cs hquote hslash h ih =>
    rw [List.cons_append, Text.stringReach]
    · rw [ih, List.length_cons]
      congr 1
      omega
    · exact hquote
    all_goals intros; contradiction
  | @pair c cs hc h ih =>
    rw [List.cons_append, List.cons_append, Text.stringReach]
    · rw [ih, List.length_cons, List.length_cons]
      congr 1
      omega
    · exact hc

/-- Where a string ends there is such a quote, and what stands before it is inside. -/
theorem inside_of_stringReach {n reach : Nat} {cs : List Char}
    (h : Text.stringReach n cs = (true, reach)) :
    ∃ w rest, cs = w ++ '"' :: rest ∧ Text.Inside w ∧ reach = n + w.length + 1 := by
  fun_induction Text.stringReach n cs with
  | case1 => cases h
  | case2 n rest =>
    cases h
    exact ⟨[], rest, rfl, .nil, rfl⟩
  | case3 => cases h
  | case4 n c cs hc ih =>
    obtain ⟨w, rest, rfl, hw, rfl⟩ := ih h
    refine ⟨'\\' :: c :: w, rest, rfl, .pair (fun e => hc (by rw [e])) hw, ?_⟩
    simp only [List.length_cons]
    omega
  | case5 => cases h
  | case6 n c cs hquote _ hpair hlast ih =>
    obtain ⟨w, rest, rfl, hw, rfl⟩ := ih h
    -- a backslash would have something behind it
    have hslash : c ≠ '\\' := by
      intro hc
      cases w with
      | nil => exact hpair _ _ hc rfl
      | cons d ds => exact hpair _ _ hc rfl
    refine ⟨c :: w, rest, rfl, .plain (fun e => hquote e) hslash hw, ?_⟩
    simp only [List.length_cons]
    omega

/-! ## Tokens as texts -/

/-- The texts of a token. -/
inductive Token.Spells : Token → List Char → Prop
  | word {c : Char} {cs : List Char} (hc : Text.isNameStart c = true)
    (hcs : ∀ d ∈ cs, Text.isNameRest d = true) :
    Spells (.ofWord (String.ofList (c :: cs))) (c :: cs)
  | int {d : Char} {ds : List Char} {n : Int64} (hd : Text.isDigit d = true)
    (hds : ∀ e ∈ ds, Text.isDigit e = true) (hn : fit (Text.digitsValue (d :: ds)) = some n) :
    Spells (.int n) (d :: ds)
  | str {inside : List Char} (h : Text.Inside inside) :
    Spells (.str (String.ofList (Text.unescape inside))) ('"' :: (inside ++ ['"']))
  | sign (s : Sign) : Spells (.sign s) s.spelling.toList

/-- Whether the sign with the character behind it is another sign, or begins a comment. -/
def Sign.growsBy : Sign → Char → Bool
  | .slash, c => c = '/'
  | .star, c => c = '*'
  | .eq, c => c = '='
  | .lt, c => c = '>' || c = '='
  | .gt, c => c = '='
  | _, _ => false

/-- Whether a text of the token with the character behind it is read as something longer. -/
def Token.growsBy : Token → Char → Bool
  | .keyword _, c | .ident _, c => Text.isNameRest c
  | .int _, c => Text.isDigit c
  | .str _, _ => false
  | .sign s, c => s.growsBy c

/-- The text `w` is the lexeme at the front of `w ++ rest`. -/
inductive Lexeme.Front : Lexeme → List Char → List Char → Prop
  | blank {c : Char} {rest : List Char} (hc : Text.isGap c = true) : Front .gap [c] rest
  | comment {text rest : List Char} (htext : '\n' ∉ text) (hends : ∀ d ∈ rest.head?, d = '\n') :
    Front .gap ('/' :: '/' :: text) rest
  | token {t : Token} {w rest : List Char} (hw : t.Spells w)
    (hends : ∀ d ∈ rest.head?, t.growsBy d = false) : Front (.token t) w rest

theorem growsBy_ofWord (word : String) (c : Char) :
    (Token.ofWord word).growsBy c = Text.isNameRest c := by
  unfold Token.ofWord
  split <;> rfl

theorem isGap_cases {c : Char} (h : Text.isGap c = true) :
    c = ' ' ∨ c = '\t' ∨ c = '\n' ∨ c = '\r' := by
  simpa only [Text.isGap, Bool.or_eq_true, decide_eq_true_eq, or_assoc] using h

/-- No token grows by a blank. -/
theorem growsBy_blank (t : Token) {c : Char} (h : Text.isGap c = true) : t.growsBy c = false := by
  cases t with
  | sign s => rcases isGap_cases h with rfl | rfl | rfl | rfl <;> cases s <;> rfl
  | _ => rcases isGap_cases h with rfl | rfl | rfl | rfl <;> rfl

theorem isGap_of_isNameStart {c : Char} (h : Text.isNameStart c = true) :
    Text.isGap c = false := by
  by_contra hgap
  rcases isGap_cases (Bool.not_eq_false _ ▸ hgap) with rfl | rfl | rfl | rfl <;> cases h

theorem isNameStart_of_isDigit {c : Char} (h : Text.isDigit c = true) :
    Text.isNameStart c = false := by
  simp only [Text.isDigit, Bool.and_eq_true, decide_eq_true_eq] at h
  rw [← Bool.not_eq_true]
  intro hname
  simp only [Text.isNameStart, Bool.or_eq_true, Bool.and_eq_true, decide_eq_true_eq] at hname
  rcases hname with (hlower | hupper) | rfl
  · exact absurd (Char.le_trans hlower.1 h.2) (by decide)
  · exact absurd (Char.le_trans hupper.1 h.2) (by decide)
  · exact absurd h.2 (by decide)

theorem isGap_of_isDigit {c : Char} (h : Text.isDigit c = true) : Text.isGap c = false := by
  rw [← Bool.not_eq_true]
  intro hgap
  rcases isGap_cases hgap with rfl | rfl | rfl | rfl <;> cases h

/-! ## Reading a lexeme -/

/-- A row of characters of one sort ends where one of another sort stands. -/
theorem takeWhile_row {p : Char → Bool} {w rest : List Char} (hw : ∀ d ∈ w, p d = true)
    (hends : ∀ d ∈ rest.head?, p d = false) : (w ++ rest).takeWhile p = w := by
  rw [List.takeWhile_append_of_pos hw]
  cases rest with
  | nil => simp
  | cons d rest => simp [hends d rfl]

/-- The longest row of characters of one kind is followed by one of another kind. -/
theorem row_of_takeWhile (p : Char → Bool) (cs : List Char) :
    cs = cs.takeWhile p ++ cs.dropWhile p ∧ (∀ d ∈ cs.takeWhile p, p d = true) ∧
      ∀ d ∈ (cs.dropWhile p).head?, p d = false := by
  refine ⟨List.takeWhile_append_dropWhile.symm, fun d => List.mem_takeWhile_imp, fun d hd => ?_⟩
  have hfirst := List.head?_dropWhile_not p cs
  rwa [Option.mem_def.1 hd] at hfirst

theorem read_sign (s : Sign) {c : Char} {w rest : List Char} (hw : s.spelling.toList = c :: w)
    (hends : ∀ d ∈ rest.head?, s.growsBy d = false) :
    Lexeme.read c (w ++ rest) = (.token (.sign s), w.length) := by
  cases s <;> simp [Sign.spelling] at hw <;> obtain ⟨rfl, rfl⟩ := hw
  case star | slash | eq | lt | gt =>
    cases rest with
    | nil => rfl
    | cons d rest =>
      have hd := hends d rfl
      simp only [Sign.growsBy, Bool.or_eq_false_iff, decide_eq_false_iff_not] at hd
      simp [Lexeme.read, Text.isGap, Text.isNameStart, Text.isDigit, Lexeme.ofSign, hd]
  all_goals rfl

/-- What stands in front is what is read there. -/
theorem read_of_front {lexeme : Lexeme} {c : Char} {w rest : List Char}
    (h : lexeme.Front (c :: w) rest) : Lexeme.read c (w ++ rest) = (lexeme, w.length) := by
  generalize hcw : c :: w = cw at h
  -- each kind of lexeme is told by its first character, and its length by what cannot follow
  cases h with
  | blank hc =>
    cases hcw
    unfold Lexeme.read
    rw [if_pos hc]
    rfl
  | @comment text _ htext hends =>
    cases hcw
    have hrow : (text ++ rest).takeWhile (· ≠ '\n') = text :=
      takeWhile_row (fun d hd => decide_eq_true (ne_of_mem_of_not_mem hd htext))
        (fun d hd => by simp [hends d hd])
    show (Lexeme.gap, ((text ++ rest).takeWhile (· ≠ '\n')).length + 1) = _
    rw [hrow]
    rfl
  | token hw hends =>
    generalize htoken : Lexeme.token _ = lexeme
    cases hw with
    | word hc hcs =>
      cases hcw
      have hrow := takeWhile_row hcs fun d hd => (growsBy_ofWord _ d).symm.trans (hends d hd)
      unfold Lexeme.read
      rw [if_neg (by simp [isGap_of_isNameStart hc]), if_pos hc]
      dsimp only
      rw [hrow, ← htoken]
    | int hd hds hn =>
      cases hcw
      have hrow := takeWhile_row hds hends
      unfold Lexeme.read
      rw [if_neg (by simp [isGap_of_isDigit hd]),
        if_neg (by simp [isNameStart_of_isDigit hd]), if_pos hd]
      dsimp only
      rw [hrow, Lexeme.number, hn, ← htoken]
    | @str inside hinside =>
      cases hcw
      have hreach := stringReach_inside hinside 0 rest
      rw [List.append_assoc, List.singleton_append]
      unfold Lexeme.read
      rw [if_neg (by decide), if_neg (by decide), if_neg (by decide)]
      simp [hreach, ← htoken]
    | sign s =>
      rw [← htoken]
      exact read_sign s hcw.symm hends

/-- The lexeme is at the front of the text `c :: cs`, and `more` characters of `cs` belong to it. -/
def Lexeme.Takes (lexeme : Lexeme) (c : Char) (cs : List Char) (more : Nat) : Prop :=
  ∃ w rest, cs = w ++ rest ∧ more = w.length ∧ lexeme.Front (c :: w) rest

/-- A sign of one character is taken if the next one does not make it longer. -/
theorem takes_sign {s : Sign} {c : Char} {cs : List Char} (hs : s.spelling.toList = [c])
    (hends : ∀ d ∈ cs.head?, s.growsBy d = false) : (Lexeme.ofSign s).Takes c cs 0 :=
  ⟨[], cs, rfl, rfl, .token (hs ▸ .sign s) hends⟩

theorem takes_pair {s : Sign} {c d : Char} (hs : s.spelling.toList = [c, d])
    (hends : ∀ e, s.growsBy e = false) (rest : List Char) :
    (Lexeme.ofSign s).Takes c (d :: rest) 1 :=
  ⟨[d], rest, rfl, rfl, .token (hs ▸ .sign s) fun e _ => hends e⟩

theorem takes_word {c : Char} (hc : Text.isNameStart c = true) (cs : List Char) :
    (Lexeme.token (.ofWord (String.ofList (c :: cs.takeWhile Text.isNameRest)))).Takes c cs
      (cs.takeWhile Text.isNameRest).length := by
  obtain ⟨hsplit, hrow, hends⟩ := row_of_takeWhile Text.isNameRest cs
  refine ⟨_, _, hsplit, rfl, .token (.word hc hrow) fun d hd => ?_⟩
  rw [growsBy_ofWord]
  exact hends d hd

theorem takes_number {c : Char} (hc : Text.isDigit c = true) (cs : List Char)
    (hread : Lexeme.number (c :: cs.takeWhile Text.isDigit) ≠ .fault) :
    (Lexeme.number (c :: cs.takeWhile Text.isDigit)).Takes c cs
      (cs.takeWhile Text.isDigit).length := by
  obtain ⟨hsplit, hrow, hends⟩ := row_of_takeWhile Text.isDigit cs
  unfold Lexeme.number at hread ⊢
  split
  · next hfit => exact ⟨_, _, hsplit, rfl, .token (.int hc hrow hfit) hends⟩
  · next hfit =>
    rw [hfit] at hread
    exact absurd rfl hread

theorem takes_string {cs : List Char} {reach : Nat} (h : Text.stringReach 0 cs = (true, reach)) :
    (Lexeme.token (.str (String.ofList (Text.unescape (cs.take (reach - 1)))))).Takes
      '"' cs reach := by
  obtain ⟨inside, rest, rfl, hinside, rfl⟩ := inside_of_stringReach h
  refine ⟨inside ++ ['"'], rest, by simp, by simp, ?_⟩
  have htake : (inside ++ '"' :: rest).take (0 + inside.length + 1 - 1) = inside := by simp
  rw [htake]
  exact .token (.str hinside) fun _ _ => rfl

theorem takes_comment (cs : List Char) :
    Lexeme.gap.Takes '/' ('/' :: cs) ((cs.takeWhile (· ≠ '\n')).length + 1) := by
  obtain ⟨hsplit, hrow, hends⟩ := row_of_takeWhile (· ≠ '\n') cs
  refine ⟨'/' :: cs.takeWhile (· ≠ '\n'), cs.dropWhile (· ≠ '\n'), ?_, rfl, .comment ?_ ?_⟩
  · rw [List.cons_append, ← hsplit]
  · exact fun hmem => by simpa using hrow _ hmem
  · exact fun d hd => by simpa using hends d hd

theorem takes_of_read {lexeme : Lexeme} {c : Char} {cs : List Char} {more : Nat}
    (h : Lexeme.read c cs = (lexeme, more)) (hread : lexeme ≠ .fault) :
    lexeme.Takes c cs more := by
  unfold Lexeme.read at h
  by_cases hgap : Text.isGap c = true
  · rw [if_pos hgap] at h
    cases h
    exact ⟨[], cs, rfl, rfl, .blank hgap⟩
  rw [if_neg hgap] at h
  by_cases hname : Text.isNameStart c = true
  · rw [if_pos hname] at h
    cases h
    exact takes_word hname cs
  rw [if_neg hname] at h
  by_cases hdigit : Text.isDigit c = true
  · rw [if_pos hdigit] at h
    cases h
    exact takes_number hdigit cs hread
  rw [if_neg hdigit] at h
  split at h
  case h_1 =>
    split at h
    · next hreach =>
      cases h
      exact takes_string hreach
    · cases h
      exact absurd rfl hread
  case h_2 comment =>
    cases h
    exact takes_comment comment
  case h_26 =>
    cases h
    exact absurd rfl hread
  -- the signs that grow stand where the sign of two characters does not
  case h_3 | h_5 | h_7 | h_10 | h_12 =>
    cases h
    refine takes_sign rfl fun d hd => ?_
    cases cs with
    | nil => cases hd
    | cons d' rest =>
      cases hd
      simp_all [Sign.growsBy]
  all_goals
    cases h
    first
    | exact takes_pair rfl (fun _ => rfl) _
    | exact takes_sign rfl fun _ _ => rfl

/-- **The reader and the shapes agree**: a lexeme is read off the front of a text exactly where it
stands there. -/
theorem read_eq_iff {lexeme : Lexeme} {c : Char} {cs : List Char} {more : Nat}
    (hread : lexeme ≠ .fault) :
    Lexeme.read c cs = (lexeme, more) ↔ lexeme.Takes c cs more := by
  constructor
  · exact fun h => takes_of_read h hread
  · rintro ⟨w, rest, rfl, rfl, h⟩
    exact read_of_front h

end BoxScript
