import BoxScript.Operator
import BoxScript.Proofs.Numerals
import Mathlib.Algebra.Order.Field.Power
import Mathlib.Data.Rat.Floor

/-!
# Arithmetic

What an arithmetic operator gives is said here for integers of any size: in fractions cut toward
zero where it divides or raises to a negative power. The operator of the language gives that
result when there is one and 64 bits hold it, and fails otherwise. The remainder of the least
integer by -1, which is zero, is the one result that is refused all the same.
-/

namespace BoxScript

/-! ## Fractions cut toward zero -/

/-- A fraction without the part behind the point. -/
def towardZero (q : ℚ) : Int := if 0 ≤ q then ⌊q⌋ else ⌈q⌉

@[simp] theorem towardZero_intCast (n : Int) : towardZero n = n := by
  simp [towardZero]

/-- Rounding towards zero takes no notice of the sign. -/
theorem towardZero_neg (q : ℚ) : towardZero (-q) = -towardZero q := by
  unfold towardZero
  rcases lt_trichotomy q 0 with hneg | rfl | hpos
  · rw [if_pos (by linarith), if_neg (by linarith), Int.floor_neg]
  · simp
  · rw [if_neg (by linarith), if_pos hpos.le, Int.ceil_neg]

theorem towardZero_eq_zero {q : ℚ} (h : |q| < 1) : towardZero q = 0 := by
  obtain ⟨hlow, hhigh⟩ := abs_lt.1 h
  unfold towardZero
  split
  case isTrue hpos => exact Int.floor_eq_zero_iff.2 ⟨hpos, hhigh⟩
  case isFalse hneg => exact Int.ceil_eq_zero_iff.2 ⟨by linarith, by linarith⟩

/-- Truncated division is division of the exact quotients, rounded towards zero. -/
theorem towardZero_div_natCast (a : Int) (n : Nat) : towardZero (a / n) = a.tdiv n := by
  have hnonneg : ∀ m : Nat, towardZero ((m : Int) / n) = (m : Int).tdiv n := by
    intro m
    have hpos : (0 : ℚ) ≤ (m : Int) / n := by positivity
    rw [towardZero, if_pos hpos, Rat.floor_intCast_div_natCast,
      Int.tdiv_eq_ediv_of_nonneg (Int.natCast_nonneg m)]
  obtain ⟨m, rfl | rfl⟩ := a.eq_nat_or_neg
  · exact hnonneg m
  · rw [Int.neg_tdiv, ← hnonneg m, ← towardZero_neg, Int.cast_neg, neg_div]

/-- Cutting a quotient toward zero is dividing integers. -/
theorem towardZero_div (a b : Int) : towardZero (a / b) = a.tdiv b := by
  obtain ⟨n, rfl | rfl⟩ := b.eq_nat_or_neg
  · exact_mod_cast towardZero_div_natCast a n
  · rw [Int.tdiv_neg, ← towardZero_div_natCast, ← towardZero_neg, Int.cast_neg, div_neg,
      Int.cast_natCast]

/-- The remainder of a division that is cut toward zero has the sign of the left operand. -/
theorem tmod_eq_sign_mul (a b : Int) : a.tmod b = a.sign * (|a| % |b|) := by
  have hnonneg : ∀ {a : Int}, 0 ≤ a → a.tmod b = a.sign * (|a| % |b|) := by
    intro a ha
    rw [Int.tmod_eq_emod_of_nonneg ha, abs_of_nonneg ha, Int.emod_abs]
    rcases ha.eq_or_lt with rfl | hpos
    · simp
    · rw [Int.sign_eq_one_of_pos hpos, one_mul]
  rcases Int.le_total 0 a with ha | ha
  · exact hnonneg ha
  · have hneg := hnonneg (Int.neg_nonneg.2 ha)
    rw [Int.neg_tmod, Int.sign_neg, abs_neg] at hneg
    linarith

/-! ## What the operators mean -/

namespace BinOp

/-- Whether the operator is one of arithmetic. -/
def IsArithmetic (op : BinOp) : Prop := op ∈ [add, sub, mul, div, mod, pow]

/-- What an arithmetic operator gives, if it gives anything: a quotient cut toward zero, a
remainder with the sign of the left operand, a power cut toward zero. There is no dividing by zero,
and no power of zero with a negative exponent. -/
def result? (op : BinOp) (a b : Int) : Option Int :=
  match op with
  | .add => some (a + b)
  | .sub => some (a - b)
  | .mul => some (a * b)
  | .div => if b = 0 then none else some (towardZero ((a : ℚ) / b))
  | .mod => if b = 0 then none else some (a.sign * (|a| % |b|))
  | .pow => if a = 0 ∧ b < 0 then none else some (towardZero ((a : ℚ) ^ b))
  | _ => none

/-- The remainder that is refused though it is zero. -/
def IsRefused (op : BinOp) (a b : Int64) : Prop := op = .mod ∧ a = Int64.minValue ∧ b = -1

instance (op : BinOp) (a b : Int64) : Decidable (op.IsRefused a b) :=
  inferInstanceAs (Decidable (_ ∧ _))

/-- The result of an arithmetic operator, as far as 64 bits hold it. -/
def given? (op : BinOp) (a b : Int64) : Option Int64 :=
  if op.IsRefused a b then none else (op.result? a.toInt b.toInt).bind fit

/-- The error of an arithmetic operator without a result. -/
def failure (op : BinOp) (a b : Int64) : RuntimeError :=
  if b = 0 ∧ (op = .div ∨ op = .mod) then .divisionByZero else .overflow a op b

/-- What an arithmetic operator comes to between two integers. -/
def outcome (op : BinOp) (a b : Int64) : Except RuntimeError Value :=
  match op.given? a b with
  | some n => .ok (.int n)
  | none => .error (op.failure a b)

end BinOp

/-! ## Powers -/

theorem two_le_abs {a : Int} (h0 : a ≠ 0) (h1 : a ≠ 1) (hminus : a ≠ -1) : 2 ≤ |a| := by
  rcases abs_cases a with ⟨h, _⟩ | ⟨h, _⟩ <;> omega

/-- A negative power of a base beyond -1 and 1 is a fraction between them. -/
theorem towardZero_zpow_of_neg {a e : Int} (ha : 2 ≤ |a|) (he : e < 0) :
    towardZero ((a : ℚ) ^ e) = 0 := by
  apply towardZero_eq_zero
  have hbase : (1 : ℚ) < |(a : ℚ)| := by exact_mod_cast (by omega : 1 < |a|)
  rw [abs_zpow]
  exact zpow_lt_one_of_neg₀ hbase he

/-- A power with an exponent that is not negative is an integer, and needs no rounding. -/
theorem towardZero_zpow_of_nonneg (a : Int) {e : Int} (he : 0 ≤ e) :
    towardZero ((a : ℚ) ^ e) = a ^ e.toNat := by
  lift e to Nat using he
  rw [Int.toNat_natCast, zpow_natCast, ← Int.cast_pow, towardZero_intCast]

/-- A base beyond -1 and 1 has left the range at the exponent 64. -/
theorem fit_pow_of_large {a : Int} {n : Nat} (ha : 2 ≤ |a|) (hn : 64 ≤ n) : fit (a ^ n) = none := by
  have hlarge : 2 ^ 64 ≤ |a ^ n| :=
    calc (2 : Int) ^ 64 ≤ 2 ^ n := pow_le_pow_right₀ (by decide) hn
      _ ≤ |a| ^ n := pow_le_pow_left₀ (by decide) ha n
      _ = |a ^ n| := (abs_pow a n).symm
  rw [fit, if_neg]
  rw [Int64.toInt_minValue, Int64.toInt_maxValue]
  rintro ⟨hlow, hhigh⟩
  have := abs_le.2 ⟨(by omega : -(2 ^ 63) ≤ a ^ n), (by omega : a ^ n ≤ 2 ^ 63)⟩
  omega

namespace Operator

/-- Powers of minus one alternate, whether the exponent is negative or not. -/
theorem power?_minus_one (e : Int) : power? (-1) e = (BinOp.pow.result? (-1) e).bind fit := by
  have hpower : power? (-1) e = some (if e % 2 = 0 then 1 else -1) := rfl
  have hresult : BinOp.pow.result? (-1) e = some (towardZero (((-1 : Int) : ℚ) ^ e)) := by
    simp [BinOp.result?]
  rw [hpower, hresult, Option.bind_some, Int.cast_neg, Int.cast_one]
  rcases Int.even_or_odd e with heven | hodd
  · rw [if_pos (Int.even_iff.1 heven), heven.neg_one_zpow]
    rfl
  · rw [if_neg (by rw [Int.odd_iff.1 hodd]; decide), hodd.neg_one_zpow]
    rfl

/-- Zero has no power with a negative exponent, and one is its power with the exponent zero. -/
theorem power?_zero (e : Int) : power? 0 e = (BinOp.pow.result? 0 e).bind fit := by
  rcases lt_trichotomy e 0 with hneg | rfl | hpos
  · simp [power?, BinOp.result?, hneg, hneg.ne]
  · rfl
  · have hpower : power? 0 e = some 0 := by simp [power?, hpos.ne', hpos.not_gt]
    have hresult : BinOp.pow.result? 0 e = some (towardZero (((0 : Int) : ℚ) ^ e)) := by
      simp [BinOp.result?, hpos.not_gt]
    rw [hpower, hresult, Int.cast_zero, zero_zpow e hpos.ne']
    rfl

/-- A power is the exact one, when there is one and it is in range. -/
theorem power?_eq (a e : Int) : power? a e = (BinOp.pow.result? a e).bind fit := by
  by_cases hone : a = 1
  · subst hone
    have hresult : BinOp.pow.result? 1 e = some (towardZero (((1 : Int) : ℚ) ^ e)) := by
      simp [BinOp.result?]
    rw [hresult, Int.cast_one, one_zpow]
    rfl
  -- the powers of one, minus one and zero do not grow, so no exponent is too large for them
  by_cases hminus : a = -1
  · exact hminus ▸ power?_minus_one e
  by_cases hzero : a = 0
  · exact hzero ▸ power?_zero e
  have hbase : 2 ≤ |a| := two_le_abs hzero hone hminus
  have hresult : BinOp.pow.result? a e = some (towardZero ((a : ℚ) ^ e)) := by
    simp [BinOp.result?, hzero]
  rw [hresult, Option.bind_some]
  unfold power?
  rw [if_neg hone, if_neg hminus, if_neg hzero]
  by_cases hneg : e < 0
  · rw [if_pos hneg, towardZero_zpow_of_neg hbase hneg]
    rfl
  rw [if_neg hneg, towardZero_zpow_of_nonneg a (by omega)]
  -- from two on, a power with an exponent of 64 or more does not fit anyway
  by_cases hlarge : 64 ≤ e
  · rw [if_pos hlarge]
    exact (fit_pow_of_large hbase (by omega)).symm
  · rw [if_neg hlarge]
    rfl

variable {op : BinOp} {a b : Int64}

theorem exact_eq {r : Int} (hgiven : op.given? a b = fit r)
    (hfailure : op.failure a b = .overflow a op b) : exact a op b r = op.outcome a b := by
  rw [BinOp.outcome, hgiven, hfailure]
  rfl

theorem toInt_eq_zero : b.toInt = 0 ↔ b = 0 := Int64.toInt_inj (y := 0)

/-- Division is the exact one, and the only quotient that does not fit is refused. -/
theorem ints_div (a b : Int64) : ints .div a b = BinOp.div.outcome a b := by
  have hints : ints .div a b =
      if b = 0 then .error .divisionByZero else exact a .div b (a.toInt.tdiv b.toInt) := rfl
  rw [hints]
  by_cases hb : b = 0
  · simp [BinOp.outcome, BinOp.given?, BinOp.failure, BinOp.result?, BinOp.IsRefused, hb]
  · rw [if_neg hb]
    apply exact_eq
    · simp [BinOp.given?, BinOp.result?, BinOp.IsRefused, hb, toInt_eq_zero, towardZero_div]
    · simp [BinOp.failure, hb]

/-- A remainder always fits, but one pair is refused as division is. -/
theorem ints_mod (a b : Int64) : ints .mod a b = BinOp.mod.outcome a b := by
  have hints : ints .mod a b =
      if b = 0 then .error .divisionByZero
      else if a = Int64.minValue ∧ b = -1 then .error (.overflow a .mod b)
      else exact a .mod b (a.toInt.tmod b.toInt) := rfl
  rw [hints]
  by_cases hb : b = 0
  · simp [BinOp.outcome, BinOp.given?, BinOp.failure, BinOp.result?, BinOp.IsRefused, hb]
  rw [if_neg hb]
  by_cases hrefused : a = Int64.minValue ∧ b = -1
  · rw [if_pos hrefused]
    simp [BinOp.outcome, BinOp.given?, BinOp.failure, BinOp.IsRefused, hrefused]
  · rw [if_neg hrefused]
    apply exact_eq
    · simp [BinOp.given?, BinOp.result?, BinOp.IsRefused, hb, toInt_eq_zero, hrefused,
        tmod_eq_sign_mul]
    · simp [BinOp.failure, hb]

theorem ints_pow (a b : Int64) : ints .pow a b = BinOp.pow.outcome a b := by
  have hgiven : BinOp.pow.given? a b = power? a.toInt b.toInt := by
    simp [BinOp.given?, BinOp.IsRefused, power?_eq]
  have hfailure : BinOp.pow.failure a b = .overflow a .pow b := by simp [BinOp.failure]
  rw [BinOp.outcome, hgiven, hfailure]
  rfl

theorem ints_eq (hop : op.IsArithmetic) (a b : Int64) : ints op a b = op.outcome a b := by
  simp only [BinOp.IsArithmetic, List.mem_cons, List.not_mem_nil, or_false] at hop
  obtain rfl | rfl | rfl | rfl | rfl | rfl := hop
  case inl | inr.inl | inr.inr.inl => exact exact_eq rfl (by simp [BinOp.failure])
  case inr.inr.inr.inl => exact ints_div a b
  case inr.inr.inr.inr.inl => exact ints_mod a b
  case inr.inr.inr.inr.inr => exact ints_pow a b

end Operator

/-- A result is given if and only if it fits and the pair is not refused. -/
theorem BinOp.given?_eq_some_iff {op : BinOp} {a b n : Int64} :
    op.given? a b = some n ↔
      op.result? a.toInt b.toInt = some n.toInt ∧ ¬ op.IsRefused a b := by
  unfold given?
  split
  case isTrue hrefused => simp [hrefused]
  case isFalse hrefused => simp [hrefused, Option.bind_eq_some_iff, fit_eq_some_iff]

theorem BinOp.kind_failure (op : BinOp) (a b : Int64) : (op.failure a b).kind = .arithmetic := by
  unfold failure
  split <;> rfl

theorem BinOp.result?_of_refused {op : BinOp} {a b : Int64} (h : op.IsRefused a b) :
    op.result? a.toInt b.toInt = some 0 := by
  obtain ⟨rfl, rfl, rfl⟩ := h
  decide

/-- Arithmetic between two integers is exact or fails: an operator gives an integer if and only if
that is the result that the operator has, and otherwise the error is one of arithmetic. The one
result that is in range and refused is the remainder of the least integer by -1. -/
theorem arithmetic_exact_or_fails (op : BinOp) (hop : op.IsArithmetic) (a b : Int64) :
    (∀ n : Int64, Operator.binary op (.int a) (.int b) = .ok (.int n) ↔
      op.result? a.toInt b.toInt = some n.toInt ∧ ¬ op.IsRefused a b) ∧
    ((∀ n : Int64, op.result? a.toInt b.toInt ≠ some n.toInt) ∨ op.IsRefused a b →
      ∃ e, Operator.binary op (.int a) (.int b) = .error e ∧ e.kind = .arithmetic) ∧
    (op.IsRefused a b → op.result? a.toInt b.toInt = some 0) := by
  have hbinary : Operator.binary op (.int a) (.int b) = op.outcome a b := Operator.ints_eq hop a b
  rw [hbinary, BinOp.outcome]
  cases hgiven : op.given? a b with
  | some m =>
    obtain ⟨hresult, hallowed⟩ := BinOp.given?_eq_some_iff.1 hgiven
    refine ⟨fun n => ?_, fun hnone => ?_, BinOp.result?_of_refused⟩
    · rw [← BinOp.given?_eq_some_iff, hgiven]
      simp
    · exact (hnone.elim (fun h => h m hresult) hallowed).elim
  | none =>
    refine ⟨fun n => ?_, fun _ => ⟨_, rfl, op.kind_failure a b⟩, BinOp.result?_of_refused⟩
    rw [← BinOp.given?_eq_some_iff, hgiven]
    simp

/-- The 63rd power of -2 is the least integer, and that of 2 is one too large. -/
theorem arithmetic_exact_or_fails_powers :
    Operator.binary .pow (.int (-2)) (.int 63) = .ok (.int Int64.minValue) ∧
    ∃ e, Operator.binary .pow (.int 2) (.int 63) = .error e ∧ e.kind = .arithmetic := by
  have hpow : BinOp.pow.IsArithmetic := by simp [BinOp.IsArithmetic]
  have hresult : ∀ a : Int, a ≠ 0 → BinOp.pow.result? a 63 = some (a ^ 63) := fun a ha => by
    simpa [BinOp.result?, ha] using towardZero_zpow_of_nonneg a (e := 63) (by decide)
  refine ⟨((arithmetic_exact_or_fails .pow hpow (-2) 63).1 _).2 ⟨?_, nofun⟩,
    (arithmetic_exact_or_fails .pow hpow 2 63).2.1 (.inl fun n h => ?_)⟩
  · exact hresult (-2) (by decide)
  · have hlarge : (2 : Int) ^ 63 = n.toInt := Option.some.inj ((hresult 2 (by decide)).symm.trans h)
    have := n.toInt_lt
    omega

end BoxScript
