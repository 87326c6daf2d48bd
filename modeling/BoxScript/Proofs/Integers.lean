import BoxScript.Extension
import BoxScript.Proofs.Numerals
import Mathlib.Data.List.Induction
import Mathlib.Data.List.TakeWhile
import Mathlib.Data.Nat.Digits.Defs

/-!
# Integers in texts

An integer is read off a text in three places: from a line of input, by the extension that turns a
string into an integer, and by the one that asks whether that can be done. `Text.Numeral` says
which texts are integers and which integer each of them is, by the value of its digits and whatever
their number. With blanks around it, such a text is read as the integer if 64 bits hold it, and no
other text is read as any; all three places agree. What is written for an integer is such a text.
-/

namespace BoxScript

namespace Text

/-- At least one digit, and nothing else. -/
def IsRow (ds : List Char) : Prop := ds ≠ [] ∧ ∀ d ∈ ds, isDigit d = true

/-- The number whose decimal digits are these, the last one for the ones. -/
def decimal (ds : List Char) : Nat :=
  Nat.ofDigits 10 (ds.reverse.map fun d => d.toNat - '0'.toNat)

/-- The text is a number in decimal, with a sign or without. -/
inductive Numeral : List Char → Int → Prop
  | plain {ds : List Char} (h : IsRow ds) : Numeral ds (decimal ds)
  | plus {ds : List Char} (h : IsRow ds) : Numeral ('+' :: ds) (decimal ds)
  | minus {ds : List Char} (h : IsRow ds) : Numeral ('-' :: ds) (-decimal ds)

/-- The text is an integer, but for blanks before and behind it. -/
def StandsFor (s : String) (n : Int64) : Prop :=
  ∃ before w after, s.toList = before ++ (w ++ after) ∧ (∀ c ∈ before, isBlank c = true) ∧
    (∀ c ∈ after, isBlank c = true) ∧ Numeral w n.toInt

/-! ## Digits -/

theorem digitsValue_eq_decimal (ds : List Char) : digitsValue ds = decimal ds := by
  induction ds using List.reverseRecOn with
  | nil => rfl
  | append_singleton ds d ih =>
    have hvalue : digitsValue (ds ++ [d]) = digitsValue ds * 10 + (d.toNat - '0'.toNat) := by
      rw [digitsValue, List.foldl_append]
      rfl
    rw [hvalue, ih, decimal, decimal, List.reverse_append, List.reverse_singleton,
      List.singleton_append, List.map_cons, Nat.ofDigits_cons]
    omega

/-- A row of digits is read as its decimal value, and nothing else is read. -/
theorem readNat?_eq_some_iff {ds : List Char} {k : Nat} :
    readNat? ds = some k ↔ IsRow ds ∧ k = decimal ds := by
  rw [readNat?, IsRow, ← digitsValue_eq_decimal]
  split
  case isTrue h =>
    refine ⟨nofun, fun ⟨⟨hne, hdigits⟩, _⟩ => ?_⟩
    rw [Bool.or_eq_true, List.isEmpty_iff, Bool.not_eq_true', ← Bool.not_eq_true,
      List.all_eq_true] at h
    exact h.elim (fun h => absurd h hne) (fun h => absurd hdigits h)
  case isFalse h =>
    rw [Bool.or_eq_true, not_or, List.isEmpty_iff, Bool.not_eq_true', Bool.not_eq_false,
      List.all_eq_true] at h
    rw [Option.some.injEq, eq_comm]
    exact (and_iff_right h).symm

theorem ne_sign_of_isRow {c : Char} {ds : List Char} (h : IsRow (c :: ds)) : c ≠ '-' ∧ c ≠ '+' := by
  have hc := h.2 c List.mem_cons_self
  constructor
  · rintro rfl
    cases hc
  · rintro rfl
    cases hc

/-- A text is read as the integer that it is. -/
theorem readInt?_eq_some_iff {cs : List Char} {n : Int64} :
    readInt? cs = some n ↔ Numeral cs n.toInt := by
  constructor
  · intro h
    unfold readInt? at h
    split at h
    all_goals
      obtain ⟨k, hk, hfit⟩ := Option.bind_eq_some_iff.1 h
      obtain ⟨hrow, rfl⟩ := readNat?_eq_some_iff.1 hk
      rw [fit_eq_some_iff.1 hfit]
    case h_1 => exact .minus hrow
    case h_2 => exact .plus hrow
    case h_3 => exact .plain hrow
  · intro h
    generalize hr : n.toInt = r at h
    have hread : ∀ {ds}, IsRow ds → readNat? ds = some (decimal ds) :=
      fun h => readNat?_eq_some_iff.2 ⟨h, rfl⟩
    -- without a sign in front, neither of the first two cases applies
    cases h with
    | plain h =>
      unfold readInt?
      split
      · exact absurd rfl (ne_sign_of_isRow h).1
      · exact absurd rfl (ne_sign_of_isRow h).2
      · rw [hread h, Option.bind_some, ← hr, fit_toInt]
    | plus h => rw [readInt?, hread h, Option.bind_some, ← hr, fit_toInt]
    | minus h => rw [readInt?, hread h, Option.bind_some, ← hr, fit_toInt]

/-! ## Blanks -/

theorem isBlank_of_isDigit {c : Char} (h : isDigit c = true) : isBlank c = false := by
  simp only [isDigit, Bool.and_eq_true, decide_eq_true_eq, Char.le_def, UInt32.le_iff_toNat_le] at h
  have hlow : 48 ≤ c.toNat := h.1
  have hhigh : c.toNat ≤ 57 := h.2
  simp [isBlank, covers, blankRanges]
  omega

theorem IsRow.not_blank {ds : List Char} (h : IsRow ds) : ∀ c ∈ ds, isBlank c = false :=
  fun c hc => isBlank_of_isDigit (h.2 c hc)

theorem Numeral.not_blank {w : List Char} {r : Int} (h : Numeral w r) :
    w ≠ [] ∧ ∀ c ∈ w, isBlank c = false := by
  cases h with
  | plain h => exact ⟨h.1, h.not_blank⟩
  | plus h => exact ⟨List.cons_ne_nil _ _, List.forall_mem_cons.2 ⟨rfl, h.not_blank⟩⟩
  | minus h => exact ⟨List.cons_ne_nil _ _, List.forall_mem_cons.2 ⟨rfl, h.not_blank⟩⟩

/-- A text is what is left of it with blanks at its ends. -/
theorem exists_blanks (cs : List Char) : ∃ before after, cs = before ++ (trim cs ++ after) ∧
    (∀ c ∈ before, isBlank c = true) ∧ ∀ c ∈ after, isBlank c = true := by
  have hfront := List.takeWhile_append_dropWhile (p := isBlank) (l := cs)
  have hback := List.takeWhile_append_dropWhile (p := isBlank) (l := (cs.dropWhile isBlank).reverse)
  refine ⟨cs.takeWhile isBlank, ((cs.dropWhile isBlank).reverse.takeWhile isBlank).reverse, ?_,
    fun c => List.mem_takeWhile_imp, fun c hc => ?_⟩
  · rw [trim, ← List.reverse_append, hback, List.reverse_reverse, hfront]
  · exact List.mem_takeWhile_imp (List.mem_reverse.1 hc)

theorem dropWhile_blanks {before w after : List Char} (hbefore : ∀ c ∈ before, isBlank c = true)
    (hne : w ≠ []) (hw : ∀ c ∈ w, isBlank c = false) :
    (before ++ (w ++ after)).dropWhile isBlank = w ++ after := by
  rw [List.dropWhile_append_of_pos hbefore]
  obtain ⟨c, cs, rfl⟩ := List.exists_cons_of_ne_nil hne
  rw [List.cons_append, List.dropWhile_cons_of_neg (by rw [hw c List.mem_cons_self]; decide)]

/-- Trimming takes away blanks on both sides, and stops at the first other character. -/
theorem trim_blanks {before w after : List Char} (hbefore : ∀ c ∈ before, isBlank c = true)
    (hafter : ∀ c ∈ after, isBlank c = true) (hne : w ≠ []) (hw : ∀ c ∈ w, isBlank c = false) :
    trim (before ++ (w ++ after)) = w := by
  have hback : (after.reverse ++ (w.reverse ++ [])).dropWhile isBlank = w.reverse ++ [] :=
    dropWhile_blanks (by simpa using hafter) (by simpa using hne) (by simpa using hw)
  rw [List.append_nil] at hback
  rw [trim, dropWhile_blanks hbefore hne hw, List.reverse_append, hback, List.reverse_reverse]

theorem readTrimmedInt?_eq_some_iff {s : String} {n : Int64} :
    readTrimmedInt? s = some n ↔ StandsFor s n := by
  rw [readTrimmedInt?, readInt?_eq_some_iff]
  constructor
  · intro h
    obtain ⟨before, after, hsplit, hbefore, hafter⟩ := exists_blanks s.toList
    exact ⟨before, _, after, hsplit, hbefore, hafter, h⟩
  · rintro ⟨before, w, after, hsplit, hbefore, hafter, h⟩
    rwa [hsplit, trim_blanks hbefore hafter h.not_blank.1 h.not_blank.2]

/-! ## Written integers -/

theorem isRow_toDigits (k : Nat) : IsRow (Nat.toDigits 10 k) := by
  refine ⟨fun h => ?_, fun d => isDigit_of_mem_toDigits⟩
  have hpos := Nat.length_toDigits_pos (b := 10) (n := k)
  rw [h] at hpos
  exact absurd hpos (Nat.lt_irrefl 0)

theorem decimal_toDigits (k : Nat) : decimal (Nat.toDigits 10 k) = k := by
  rw [← digitsValue_eq_decimal, digitsValue_toDigits]

theorem numeral_showInt (n : Int64) : Numeral (showInt n).toList n.toInt := by
  rcases Int.lt_or_le n.toInt 0 with hneg | hnonneg
  · have h := Numeral.minus (isRow_toDigits (-n.toInt).toNat)
    rw [decimal_toDigits, Int.toNat_of_nonneg (by omega), Int.neg_neg] at h
    rwa [showInt_of_neg hneg]
  · have h := Numeral.plain (isRow_toDigits n.toInt.toNat)
    rw [decimal_toDigits, Int.toNat_of_nonneg hnonneg] at h
    rwa [showInt_of_nonneg hnonneg]

theorem standsFor_showInt (n : Int64) : StandsFor (showInt n) n :=
  ⟨[], (showInt n).toList, [], by simp, by simp, by simp, numeral_showInt n⟩

end Text

/-! ## The three readers -/

open Text (StandsFor readTrimmedInt? readTrimmedInt?_eq_some_iff)

theorem callBuiltin_toInt (s : String) (m : Machine) :
    callBuiltin "toint" (.str s) [] m =
      match readTrimmedInt? s with
      | some n => ⟨.ok (.int n), m⟩
      | none => ⟨.error (.notANumber s), m⟩ := by
  show (Exec.ofExcept (Builtin.ofString "toint" s []) >>= _) m = _
  have hextension : Builtin.ofString "toint" s [] =
      match readTrimmedInt? s with
      | some n => .ok (some (.int n))
      | none => .error (.notANumber s) := rfl
  rw [hextension]
  cases readTrimmedInt? s <;> rfl

theorem callBuiltin_canConvertToInt (s : String) (m : Machine) :
    callBuiltin "canconverttoint" (.str s) [] m
      = ⟨.ok (.ofBool (readTrimmedInt? s).isSome), m⟩ := rfl

theorem callBuiltin_showInt (n : Int64) (m : Machine) :
    callBuiltin "tostring" (.int n) [] m = ⟨.ok (.str (Text.showInt n)), m⟩ := rfl

/-- What is read off a text that stands for an integer: the integer, by all readers. -/
structure ReadAs (s : String) (n : Int64) (m : Machine) : Prop where
  line : Value.ofInputLine s = .int n
  toInt : callBuiltin "toint" (.str s) [] m = ⟨.ok (.int n), m⟩
  canConvert : callBuiltin "canconverttoint" (.str s) [] m = ⟨.ok (.int 1), m⟩

/-- What is read off a text that stands for no integer. -/
structure ReadAsText (s : String) (m : Machine) : Prop where
  line : Value.ofInputLine s = .str s
  toInt : ∃ e, callBuiltin "toint" (.str s) [] m = ⟨.error e, m⟩ ∧ e.kind = .argumentError
  canConvert : callBuiltin "canconverttoint" (.str s) [] m = ⟨.ok (.int 0), m⟩

/-- A text that stands for an integer is read by all three readers as that one. -/
theorem readAs_of_standsFor {s : String} {n : Int64} (h : StandsFor s n) (m : Machine) :
    ReadAs s n m := by
  have hread := readTrimmedInt?_eq_some_iff.2 h
  constructor
  · rw [Value.ofInputLine, hread]
  · rw [callBuiltin_toInt, hread]
  · rw [callBuiltin_canConvertToInt, hread]
    rfl

/-- A text that stands for none is refused by all three. -/
theorem readAsText_of_not_standsFor {s : String} (h : ∀ n, ¬StandsFor s n) (m : Machine) :
    ReadAsText s m := by
  have hread : readTrimmedInt? s = none :=
    Option.eq_none_iff_forall_ne_some.2 fun n hn => h n (readTrimmedInt?_eq_some_iff.1 hn)
  constructor
  · rw [Value.ofInputLine, hread]
  · rw [callBuiltin_toInt, hread]
    exact ⟨_, rfl, rfl⟩
  · rw [callBuiltin_canConvertToInt, hread]
    rfl

/-- **Integers are read exactly.** A line of input is the integer `n` if and only if it stands for
`n`, and a line that stands for none is taken as it is. A string is turned into `n` if and only if
it stands for `n`, and that can be done if and only if it stands for some integer; otherwise the
attempt fails. What is written for an integer is read as that integer by all of these. -/
theorem integers_read (s : String) (m : Machine) :
    (∀ n, Value.ofInputLine s = .int n ↔ StandsFor s n) ∧
    (∀ n, callBuiltin "toint" (.str s) [] m = ⟨.ok (.int n), m⟩ ↔ StandsFor s n) ∧
    (callBuiltin "canconverttoint" (.str s) [] m = ⟨.ok (.int 1), m⟩ ↔ ∃ n, StandsFor s n) ∧
    ((∀ n, ¬StandsFor s n) → ReadAsText s m) ∧
    ∀ n, ∃ text, callBuiltin "tostring" (.int n) [] m = ⟨.ok (.str text), m⟩ ∧
      ReadAs text n m := by
  refine ⟨fun n => ?line, fun n => ?toInt, ?canConvert, fun h => readAsText_of_not_standsFor h m,
    fun n => ⟨_, callBuiltin_showInt n m, readAs_of_standsFor (Text.standsFor_showInt n) m⟩⟩
  case line =>
    refine ⟨fun h => ?_, fun h => (readAs_of_standsFor h m).line⟩
    rw [Value.ofInputLine] at h
    split at h
    · next n' hread =>
      cases h
      exact readTrimmedInt?_eq_some_iff.1 hread
    · cases h
  case toInt =>
    refine ⟨fun h => ?_, fun h => (readAs_of_standsFor h m).toInt⟩
    rw [callBuiltin_toInt] at h
    split at h
    · next n' hread =>
      cases h
      exact readTrimmedInt?_eq_some_iff.1 hread
    · cases h
  case canConvert =>
    constructor
    · intro h
      by_contra hnone
      have hzero := (readAsText_of_not_standsFor (fun n hn => hnone ⟨n, hn⟩) m).canConvert
      cases h.symm.trans hzero
    · rintro ⟨n, h⟩
      exact (readAs_of_standsFor h m).canConvert

example : Value.ofInputLine "\u2003-007 " = .int (-7) := by cbv

end BoxScript
