import BoxScript.Operator
import BoxScript.Proofs.Numerals

/-!
# Arrays in a row

Arrays are added by writing one behind the other, and multiplied by writing copies in a row. Minus
takes back what plus has added, and dividing counts the copies that a product has. Both compare
items as the language does: data by what it is, an instance by its handle. That is equality of
values (`Value.same_iff_eq`), so the operators are inverse to the letter, whatever the arrays hold.
-/

namespace BoxScript

/-! ## Equal values -/

namespace Value

mutual

/-- Two values are the same for the language if and only if they are equal. -/
theorem same_iff_eq (a b : Value) : same a b = true ↔ a = b := by
  cases a with
  | array items => cases b <;> simp [same, sameItems_iff_eq items]
  | _ => cases b <;> simp [same]

/-- Items are the same if and only if they are equal. -/
theorem sameItems_iff_eq (as bs : List Value) : sameItems as bs = true ↔ as = bs := by
  cases as with
  | nil => cases bs <;> simp [sameItems]
  | cons a as =>
    cases bs with
    | nil => simp [sameItems]
    | cons b bs => simp [sameItems, same_iff_eq a b, sameItems_iff_eq as bs]

end

end Value

/-! ## Copies -/

section Copies

variable {α : Type} {l : List α}

/-- So many copies of a list in a row. -/
def copies (n : Nat) (l : List α) : List α := (List.replicate n l).flatten

@[simp] theorem copies_zero (l : List α) : copies 0 l = [] := rfl

theorem copies_succ (n : Nat) (l : List α) : copies (n + 1) l = l ++ copies n l := by
  rw [copies, List.replicate_succ, List.flatten_cons, copies]

@[simp] theorem copies_nil (n : Nat) : copies n ([] : List α) = [] := by
  simp [copies]

theorem copies_add (j k : Nat) (l : List α) : copies (j + k) l = copies j l ++ copies k l := by
  rw [copies, ← List.replicate_append_replicate, List.flatten_append, copies, copies]

theorem copies_succ_right (n : Nat) (l : List α) : copies (n + 1) l = copies n l ++ l := by
  rw [copies_add, copies_succ 0, copies_zero, List.append_nil]

/-- Copies read backwards are copies of the list read backwards. -/
theorem reverse_copies (n : Nat) (l : List α) : (copies n l).reverse = copies n l.reverse := by
  induction n with
  | zero => rfl
  | succ n ih => rw [copies_succ, copies_succ_right, List.reverse_append, ih]

@[simp] theorem length_copies (n : Nat) (l : List α) : (copies n l).length = n * l.length := by
  simp [copies]

end Copies

namespace Operator

variable {items block : List Value}

/-! ## Sizes in bounds -/

theorem count_of_nonneg {n : Int64} (h : 0 ≤ n) : count n = .ok n.toInt.toNat := by
  rw [count, if_neg (Int64.not_lt.2 h)]

theorem bounded_of_le {size : Nat} (h : size ≤ maxBuiltLength) : bounded size = .ok () := if_pos h

theorem repeatCount_of_le {size : Nat} {n : Int64} (h : 0 ≤ n)
    (hbound : size * n.toInt ≤ maxBuiltLength) :
    repeatCount size n = .ok (if size = 0 then 0 else n.toInt.toNat) := by
  have hcount : repeatCount size n =
      if size = 0 then .ok 0 else bounded (size * n.toInt.toNat) >>= fun _ => .ok n.toInt.toNat := by
    rw [repeatCount, count_of_nonneg h]
    rfl
  have hsize : size * n.toInt.toNat ≤ maxBuiltLength := by
    rw [← Int.toNat_of_nonneg (Int64.le_iff_toInt_le.1 h)] at hbound
    exact_mod_cast hbound
  rw [hcount, bounded_of_le hsize]
  split <;> rfl

theorem clampSize_toNat {n : Int64} (h : 0 ≤ n) : clampSize n.toInt.toNat = n := by
  rw [clampSize, Int.toNat_of_nonneg (Int64.le_iff_toInt_le.1 h), fit_toInt, Option.getD_some]

theorem exact_eq_ok_iff {a b : Int64} {op : BinOp} {r : Int} {v : Value} :
    exact a op b r = .ok v ↔ ∃ n : Int64, v = .int n ∧ n.toInt = r := by
  unfold exact
  split
  case h_1 m hm =>
    rw [fit_eq_some_iff] at hm
    subst hm
    simp [eq_comm, Int64.toInt_inj]
  case h_2 hnone =>
    refine ⟨nofun, fun ⟨n, _, hn⟩ => ?_⟩
    rw [fit_eq_some_iff.2 hn] at hnone
    cases hnone

/-! ## Minus -/

theorem endsIn_iff : endsIn items block = true ↔ block <:+ items := by
  rw [endsIn, Bool.and_eq_true, decide_eq_true_iff, Value.sameItems_iff_eq]
  rw [List.suffix_iff_eq_drop]
  refine ⟨fun h => h.2.symm, fun h => ⟨?_, h.symm⟩⟩
  have hlength := congrArg List.length h
  rw [List.length_drop] at hlength
  omega

/-! ## Times -/

/-- An array that is repeated is so many copies of it. -/
theorem timesItems_of_le {n : Int64} (h : 0 ≤ n)
    (hbound : items.length * n.toInt ≤ maxBuiltLength) :
    timesItems items n = .ok (.array (copies n.toInt.toNat items)) := by
  unfold timesItems
  rw [repeatCount_of_le h hbound]
  cases items with
  | nil => simp [pure, Except.pure, bind, Except.bind]
  | cons item items => rfl

/-! ## Divided by -/

theorem countBlocks_copies (h : block ≠ []) (k : Nat) : countBlocks (copies k block) block = k := by
  have hpos : 0 < block.length := List.length_pos_iff.2 h
  have hsame : Value.sameItems (copies k block) (List.replicate k block).flatten = true :=
    (Value.sameItems_iff_eq _ _).2 rfl
  -- the length gives the only number of copies that can be right, and the comparison confirms it
  simp [countBlocks, h, hsame, Nat.mul_div_cancel k hpos]

/-- What is no row of copies has none. -/
theorem countBlocks_eq_zero (h : ∀ k, items ≠ copies k block) : countBlocks items block = 0 := by
  have hdiffer : ∀ k, ¬Value.sameItems items (List.replicate k block).flatten = true :=
    fun k hsame => h k ((Value.sameItems_iff_eq _ _).1 hsame)
  simp [countBlocks, hdiffer]

/-! ## All together -/

theorem minus_of_suffix (h : block <:+ items) :
    ∃ rest, binary .sub (.array items) (.array block) = .ok (.array rest) ∧
      binary .add (.array rest) (.array block) = .ok (.array items) := by
  obtain ⟨rest, rfl⟩ := h
  refine ⟨rest, ?_, rfl⟩
  have hends : endsIn (rest ++ block) block = true := endsIn_iff.2 (List.suffix_append rest block)
  simp [binary, hends]

theorem minus_of_not_suffix (h : ¬block <:+ items) :
    binary .sub (.array items) (.array block) = .ok (.array items) := by
  have hends : ¬endsIn items block = true := fun hends => h (endsIn_iff.1 hends)
  simp [binary, hends]

theorem plus_then_minus (items block : List Value) :
    (binary .add (.array items) (.array block) >>= (binary .sub · (.array block)))
      = .ok (.array items) := by
  obtain ⟨rest, hminus, hplus⟩ := minus_of_suffix (List.suffix_append items block)
  have hrest : rest ++ block = items ++ block := Value.array.inj (Except.ok.inj hplus)
  rw [List.append_cancel_right hrest] at hminus
  exact hminus

theorem times_then_divided (h : block ≠ []) {k : Int64} (hk : 0 ≤ k)
    (hbound : block.length * k.toInt ≤ maxBuiltLength) :
    (binary .mul (.array block) (.int k) >>= (binary .div · (.array block))) = .ok (.int k) := by
  have hmul : binary .mul (.array block) (.int k) = .ok (.array (copies k.toInt.toNat block)) :=
    timesItems_of_le hk hbound
  have hdiv : binary .div (.array (copies k.toInt.toNat block)) (.array block) =
      .ok (.ofSize (countBlocks (copies k.toInt.toNat block) block)) := rfl
  rw [hmul]
  refine hdiv.trans ?_
  rw [countBlocks_copies h, Value.ofSize, clampSize_toNat hk]

/-- A sum of counts that stays in bounds is in range, unless there is nothing to repeat. -/
theorem plus_of_le (h : block ≠ []) {j k : Int64} (hj : 0 ≤ j) (hk : 0 ≤ k)
    (hbound : block.length * (j.toInt + k.toInt) ≤ maxBuiltLength) :
    ∃ n, binary .add (.int j) (.int k) = .ok n := by
  have hlength : (1 : Int) ≤ block.length := by exact_mod_cast List.length_pos_iff.2 h
  have hnonneg : 0 ≤ j.toInt + k.toInt :=
    Int.add_nonneg (Int64.le_iff_toInt_le.1 hj) (Int64.le_iff_toInt_le.1 hk)
  have hsum : j.toInt + k.toInt ≤ maxBuiltLength :=
    calc j.toInt + k.toInt = 1 * (j.toInt + k.toInt) := (Int.one_mul _).symm
      _ ≤ block.length * (j.toInt + k.toInt) := Int.mul_le_mul_of_nonneg_right hlength hnonneg
      _ ≤ maxBuiltLength := hbound
  have hmin : Int64.minValue.toInt ≤ 0 := by decide
  have hmax : (maxBuiltLength : Int) ≤ Int64.maxValue.toInt := by decide
  have hfit : fit (j.toInt + k.toInt) = some (.ofInt (j.toInt + k.toInt)) :=
    if_pos ⟨by omega, by omega⟩
  exact ⟨_, exact_eq_ok_iff.2 ⟨_, rfl, fit_eq_some_iff.1 hfit⟩⟩

/-- Copies are added by adding their numbers. -/
theorem times_plus {j k : Int64} (hj : 0 ≤ j) (hk : 0 ≤ k)
    (hbound : block.length * (j.toInt + k.toInt) ≤ maxBuiltLength) {n : Value}
    (hn : binary .add (.int j) (.int k) = .ok n) :
    ∃ row, binary .mul (.array block) n = .ok row ∧
      (do
        let left ← binary .mul (.array block) (.int j)
        let right ← binary .mul (.array block) (.int k)
        binary .add left right) = .ok row := by
  have hj' : 0 ≤ j.toInt := Int64.le_iff_toInt_le.1 hj
  have hk' : 0 ≤ k.toInt := Int64.le_iff_toInt_le.1 hk
  obtain ⟨n, rfl, hsum⟩ := exact_eq_ok_iff.1 hn
  -- a count up to the sum is in bounds because the sum is
  have htimes : ∀ m : Int64, 0 ≤ m.toInt → m.toInt ≤ j.toInt + k.toInt →
      binary .mul (.array block) (.int m) = .ok (.array (copies m.toInt.toNat block)) := by
    intro m hm hle
    exact timesItems_of_le (Int64.le_iff_toInt_le.2 hm)
      (Int.le_trans (Int.mul_le_mul_of_nonneg_left hle (Int.natCast_nonneg _)) hbound)
  have hcopies : copies n.toInt.toNat block =
      copies j.toInt.toNat block ++ copies k.toInt.toNat block := by
    rw [hsum, Int.toNat_add hj' hk', copies_add]
  refine ⟨.array (copies n.toInt.toNat block), htimes n (by omega) (by omega), ?_⟩
  rw [htimes j hj' (by omega), htimes k hk' (by omega), hcopies]
  rfl

/-- **The operators of arrays undo each other.** What plus has added, minus takes off. In general
minus takes off the right array where the left one ends in it, and else leaves the left one as it
is. An array divided by another one, which must not be empty, is the number of copies that it is in
a row, and zero if it is no such row: dividing undoes repeating. Repeating goes over sums. -/
theorem arrays_undone (a b : List Value) :
    (binary .add (.array a) (.array b) >>= (binary .sub · (.array b))) = .ok (.array a) ∧
    (b <:+ a → ∃ r, binary .sub (.array a) (.array b) = .ok (.array r) ∧
      binary .add (.array r) (.array b) = .ok (.array a)) ∧
    (¬b <:+ a → binary .sub (.array a) (.array b) = .ok (.array a)) ∧
    (b ≠ [] →
      (∀ k, a = copies k b → binary .div (.array a) (.array b) = .ok (.ofSize k)) ∧
      ((∀ k, a ≠ copies k b) → binary .div (.array a) (.array b) = .ok (.int 0)) ∧
      ∀ k : Int64, 0 ≤ k → b.length * k.toInt ≤ maxBuiltLength →
        (binary .mul (.array b) (.int k) >>= (binary .div · (.array b))) = .ok (.int k)) ∧
    ∀ j k : Int64, 0 ≤ j → 0 ≤ k → b.length * (j.toInt + k.toInt) ≤ maxBuiltLength →
      (b ≠ [] → ∃ n, binary .add (.int j) (.int k) = .ok n) ∧
      ∀ n, binary .add (.int j) (.int k) = .ok n →
        ∃ row, binary .mul (.array b) n = .ok row ∧
          (do
            let left ← binary .mul (.array b) (.int j)
            let right ← binary .mul (.array b) (.int k)
            binary .add left right) = .ok row := by
  have hdiv : binary .div (.array a) (.array b) = .ok (.ofSize (countBlocks a b)) := rfl
  refine ⟨plus_then_minus a b, minus_of_suffix, minus_of_not_suffix, fun hb => ⟨?_, ?_, ?_⟩, ?_⟩
  · rintro k rfl
    rw [hdiv, countBlocks_copies hb]
  · intro hnone
    rw [hdiv, countBlocks_eq_zero hnone]
    rfl
  · exact fun k hk hbound => times_then_divided hb hk hbound
  · exact fun j k hj hk hbound =>
      ⟨fun hb => plus_of_le hb hj hk hbound, fun n hn => times_plus hj hk hbound hn⟩

namespace Blocks

/-- An array in an array, and an instance. -/
def nested : List Value := [.array [.int 1, .array []], .object ⟨0⟩]

end Blocks

open Blocks in
theorem arrays_undone_nested :
    (∃ r, binary .sub (.array (copies 2 nested)) (.array nested) = .ok (.array r) ∧
      binary .add (.array r) (.array nested) = .ok (.array (copies 2 nested))) ∧
    binary .sub (.array nested) (.array [.void]) = .ok (.array nested) ∧
    binary .div (.array (copies 2 nested)) (.array nested) = .ok (.int 2) ∧
    binary .div (.array nested) (.array [.void]) = .ok (.int 0) ∧
    (binary .mul (.array nested) (.int 3) >>= (binary .div · (.array nested))) = .ok (.int 3) ∧
    ∃ row, binary .mul (.array nested) (.int 3) = .ok row ∧
      (do
        let left ← binary .mul (.array nested) (.int 1)
        let right ← binary .mul (.array nested) (.int 2)
        binary .add left right) = .ok row := by
  have hne : nested ≠ [] := by simp [nested]
  have hsuffix : nested <:+ copies 2 nested := ⟨nested, rfl⟩
  -- the block in question does not even stand in the array
  have hother : ¬[.void] <:+ nested := fun h => by
    simpa [nested] using h.mem (List.mem_singleton_self Value.void)
  have hnone : ∀ k, nested ≠ copies k [.void] := by
    rintro (_ | k) h
    · exact hne h
    · simp [nested, copies_succ] at h
  refine ⟨(arrays_undone _ nested).2.1 hsuffix, (arrays_undone nested [.void]).2.2.1 hother,
    ((arrays_undone _ nested).2.2.2.1 hne).1 2 rfl,
    ((arrays_undone nested [.void]).2.2.2.1 (by simp)).2.1 hnone,
    ((arrays_undone [] nested).2.2.2.1 hne).2.2 3 (by decide) (by decide), ?_⟩
  obtain ⟨-, hsum⟩ := (arrays_undone [] nested).2.2.2.2 1 2 (by decide) (by decide) (by decide)
  exact hsum (.int 3) rfl

end Operator
end BoxScript
