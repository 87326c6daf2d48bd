import BoxScript.Text.Decimal

/-!
# Numerals

An integer is written as a row of digits, with a minus before it if it is negative, and the digits
stand for its absolute value. The least integer is the only one whose absolute value is out of
range.
-/

namespace BoxScript

/-- The digits of a number have that number as their value. -/
theorem digitsValue_toDigits (n : Nat) : Text.digitsValue (Nat.toDigits 10 n) = n := by
  have hfold := Nat.ofDigitChars_ten_toDigits (n := n)
  rw [Nat.ofDigitChars_eq_foldl] at hfold
  simpa only [Text.digitsValue, Nat.mul_comm] using hfold

theorem isDigit_of_mem_toDigits {n : Nat} {d : Char} (h : d ∈ Nat.toDigits 10 n) :
    Text.isDigit d = true := by
  have hdigit := Nat.isDigit_of_mem_toDigits (by omega) (by omega) h
  simp only [Char.isDigit, ge_iff_le, Bool.and_eq_true, decide_eq_true_eq] at hdigit
  simp only [Text.isDigit, Bool.and_eq_true, decide_eq_true_eq]
  exact hdigit

/-- An integer that is not negative is written with its digits alone. -/
theorem showInt_of_nonneg {n : Int64} (h : 0 ≤ n.toInt) :
    (Text.showInt n).toList = Nat.toDigits 10 n.toInt.toNat := by
  have hrepr : Text.showInt n = n.toInt.repr := rfl
  rw [hrepr, Int.repr_eq_if, if_pos h, Nat.repr_eq_ofList_toDigits, String.toList_ofList]

theorem showInt_of_neg {n : Int64} (h : n.toInt < 0) :
    (Text.showInt n).toList = '-' :: Nat.toDigits 10 (-n.toInt).toNat := by
  have hrepr : Text.showInt n = n.toInt.repr := rfl
  rw [hrepr, Int.repr_eq_if, if_neg (by omega), Nat.repr_eq_ofList_toDigits]
  simp

@[simp] theorem fit_toInt (n : Int64) : fit n.toInt = some n := by
  have hmin := n.minValue_le_toInt
  have hmax := n.toInt_le
  rw [fit, if_pos ⟨hmin, hmax⟩, Int64.ofInt_toInt]

theorem fit_eq_some_iff {r : Int} {n : Int64} : fit r = some n ↔ n.toInt = r := by
  refine ⟨fun h => ?_, fun h => h ▸ fit_toInt n⟩
  unfold fit at h
  split at h
  case isTrue hr =>
    cases h
    rw [Int64.toInt_minValue, Int64.toInt_maxValue] at hr
    exact Int64.toInt_ofInt_of_le hr.1 (by omega)
  case isFalse => cases h

theorem toInt_bounds_of_ne {n : Int64} (h : n ≠ Int64.minValue) :
    -Int64.maxValue.toInt ≤ n.toInt ∧ n.toInt ≤ Int64.maxValue.toInt := by
  have hne : n.toInt ≠ Int64.minValue.toInt := fun heq => h (Int64.toInt_inj.1 heq)
  have hends : Int64.minValue.toInt = -(Int64.maxValue.toInt + 1) := by decide
  have hmin := n.minValue_le_toInt
  exact ⟨by omega, n.toInt_le⟩

/-- The minus of an integer overflows for the least one only. -/
theorem toInt_neg_of_ne {n : Int64} (h : n ≠ Int64.minValue) : (-n).toInt = -n.toInt := by
  have hbounds := toInt_bounds_of_ne h
  rw [Int64.toInt_maxValue] at hbounds
  rw [Int64.toInt_neg, Int.bmod_eq_of_le (by omega) (by omega)]

theorem fit_neg_toInt {n : Int64} (h : n ≠ Int64.minValue) : fit (-n.toInt) = some (-n) := by
  rw [← toInt_neg_of_ne h, fit_toInt]

end BoxScript
