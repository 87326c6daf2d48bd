import BoxScript.Operator
import Mathlib.Data.Int.Lemmas

/-!
# Pieces

A text divided by a positive integer is its first piece, when it is cut into that many pieces of
one size. The divisor is to be positive, but what is looked at is the sign of the quotient, and
that is zero for a negative divisor beyond the length of the text.
-/

namespace BoxScript.Operator

theorem prefix_takeText (s : String) (n : Nat) : (takeText s n).toList <+: s.toList := by
  rw [takeText, String.toList_ofList]
  exact List.take_prefix n s.toList

/-- As many characters are taken as are asked for. -/
theorem length_takeText {s : String} {n : Nat} (h : n ≤ s.length) : (takeText s n).length = n := by
  rw [takeText, String.length_ofList, List.length_take, String.length_toList, Nat.min_eq_left h]

theorem tdiv_of_neg {n : Int} (length : Nat) (h : n < 0) :
    (length : Int).tdiv n = -((length / n.natAbs : Nat) : Int) := by
  obtain ⟨m, rfl⟩ := Int.exists_eq_neg_ofNat h.le
  rw [Int.tdiv_neg, Int.ofNat_tdiv, Int.natAbs_neg, Int.natAbs_natCast]

/-- The quotient by a negative integer is negative only if the integer is not beyond the length. -/
theorem divideText_of_neg {s : String} {n : Int64} (h : n < 0) :
    divideText s n =
      if -n.toInt ≤ s.length then .error .divisorNotPositive else .ok (.str "") := by
  have hneg : n.toInt < 0 := Int64.lt_iff_toInt_lt.1 h
  have hne : n ≠ 0 := fun h0 => by simp [h0] at hneg
  have hpos : 0 < s.length / n.toInt.natAbs ↔ -n.toInt ≤ s.length := by
    rw [Nat.div_pos_iff]
    omega
  simp only [divideText, if_neg hne, tdiv_of_neg s.length hneg]
  by_cases hle : -n.toInt ≤ s.length
  · have := hpos.2 hle
    rw [if_pos hle, if_pos (by omega)]
  · have hzero : s.length / n.toInt.natAbs = 0 := Nat.eq_zero_of_not_pos (mt hpos.1 hle)
    rw [if_neg hle, hzero]
    rfl

/-- A positive divisor takes the part of the text that comes first. -/
theorem divideText_of_pos {s : String} {n : Int64} (h : 0 < n) :
    divideText s n = .ok (.str (takeText s (s.length / n.toInt.toNat))) := by
  have hpos : 0 < n.toInt := Int64.lt_iff_toInt_lt.1 h
  have hne : n ≠ 0 := fun h0 => by simp [h0] at hpos
  have hquotient : (s.length : Int).tdiv n.toInt = ((s.length / n.toInt.toNat : Nat) : Int) := by
    obtain ⟨m, hm⟩ := Int.eq_ofNat_of_zero_le hpos.le
    rw [hm, Int.ofNat_tdiv, Int.toNat_natCast]
  simp only [divideText, if_neg hne, hquotient]
  rw [if_neg (Int.natCast_nonneg _).not_gt, Int.toNat_natCast]

/-- What a text divided by an integer comes to: no text for zero, the first piece for a positive
integer. A negative one is refused if it is not beyond the length of the text, and otherwise the
piece is empty. -/
theorem text_divided (s : String) (n : Int64) :
    (n = 0 → ∃ e, binary .div (.str s) (.int n) = .error e ∧ e.kind = .arithmetic) ∧
    (n < 0 → -n.toInt ≤ s.length →
      ∃ e, binary .div (.str s) (.int n) = .error e ∧ e.kind = .argumentError ∧
        e.message = "divisor must be positive") ∧
    (n < 0 → s.length < -n.toInt → binary .div (.str s) (.int n) = .ok (.str "")) ∧
    (0 < n → ∃ t, binary .div (.str s) (.int n) = .ok (.str t) ∧ t.toList <+: s.toList ∧
      t.length = s.length / n.toInt.toNat) := by
  have hbinary : binary .div (.str s) (.int n) = divideText s n := rfl
  rw [hbinary]
  refine ⟨?zero, ?refused, ?beyond, ?positive⟩
  case zero =>
    rintro rfl
    exact ⟨.divisionByZero, rfl, rfl⟩
  -- at a divisor between minus the length and minus one the part would have a negative length
  case refused =>
    intro hneg hle
    refine ⟨.divisorNotPositive, ?_, rfl, rfl⟩
    rw [divideText_of_neg hneg, if_pos hle]
  -- beyond that the quotient is zero, and zero characters are taken without a look at the sign
  case beyond =>
    intro hneg hlt
    rw [divideText_of_neg hneg, if_neg (by omega)]
  case positive =>
    intro hpos
    refine ⟨_, divideText_of_pos hpos, prefix_takeText _ _, ?_⟩
    exact length_takeText (Nat.div_le_self _ _)

/-- A negative divisor beyond the length of the text is let through. -/
theorem text_divided_beyond : binary .div (.str "ab") (.int (-3)) = .ok (.str "") :=
  (text_divided "ab" (-3)).2.2.1 (by decide) (by decide)

end BoxScript.Operator
