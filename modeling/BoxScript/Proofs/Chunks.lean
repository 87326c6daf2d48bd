import BoxScript.Proofs.Rows
import Mathlib.Algebra.Order.Floor.Div

/-!
# Arrays in parts

An array divided by a positive integer is cut into that many parts. The parts are as large as they
have to be for all items to find a place, so the items can be used up before the last part is
reached, and the parts behind are empty. The number of parts is bounded like everything that an
operator builds.
-/

namespace BoxScript.Operator

variable {α : Type} {size parts : Nat} {items : List α}

/-- So many parts of `size` items each, as long as there are items. -/
def chunks (size : Nat) : Nat → List α → List (List α)
  | 0, _ => []
  | parts + 1, items => items.take size :: chunks size parts (items.drop size)

theorem chunksFrom_eq (cut : List Value) (size parts : Nat) (items : List Value) :
    chunksFrom cut size parts items = cut.reverse ++ (chunks size parts items).map .array := by
  induction parts generalizing cut items with
  | zero => rw [chunksFrom, chunks, List.map_nil, List.append_nil]
  | succ parts ih =>
    rw [chunksFrom, chunks, ih, List.reverse_cons, List.append_assoc]
    rfl

theorem length_chunks (size parts : Nat) (items : List α) :
    (chunks size parts items).length = parts := by
  induction parts generalizing items with
  | zero => rfl
  | succ parts ih => rw [chunks, List.length_cons, ih]

/-- Nothing is lost or doubled, if the parts are large enough. -/
theorem flatten_chunks (h : items.length ≤ parts * size) :
    (chunks size parts items).flatten = items := by
  induction parts generalizing items with
  | zero => simpa [chunks, eq_comm] using h
  | succ parts ih =>
    have hrest : (items.drop size).length ≤ parts * size := by
      rw [List.length_drop]
      rw [Nat.succ_mul] at h
      omega
    rw [chunks, List.flatten_cons, ih hrest, List.take_append_drop]

/-- No chunk is longer than the size that is cut at. -/
theorem length_le_of_mem_chunks {c : List α} (h : c ∈ chunks size parts items) :
    c.length ≤ size := by
  induction parts generalizing items with
  | zero => exact absurd h List.not_mem_nil
  | succ parts ih =>
    rcases List.mem_cons.1 h with rfl | h
    · exact List.length_take_le size items
    · exact ih h

/-- Nothing is left for the chunks behind the end. -/
theorem eq_nil_of_mem_chunks {c : List α} (h : c ∈ chunks size parts []) : c = [] := by
  induction parts with
  | zero => exact absurd h List.not_mem_nil
  | succ parts ih =>
    rw [chunks, List.take_nil, List.drop_nil] at h
    exact (List.mem_cons.1 h).elim id ih

/-- A part before one with items is full. -/
theorem pairwise_chunks (size parts : Nat) (items : List α) :
    (chunks size parts items).Pairwise fun c d => d ≠ [] → c.length = size := by
  induction parts generalizing items with
  | zero => exact .nil
  | succ parts ih =>
    refine List.pairwise_cons.2 ⟨fun d hd hne => ?_, ih _⟩
    have hlarge : size ≤ items.length := by
      by_contra hsmall
      -- then this part takes all there is, and the parts behind it are empty
      rw [List.drop_of_length_le (by omega)] at hd
      exact hne (eq_nil_of_mem_chunks hd)
    rw [List.length_take, Nat.min_eq_left hlarge]

theorem chunks_eq_map (size parts : Nat) (items : List α) :
    chunks size parts items =
      (List.range parts).map fun i => (items.drop (i * size)).take size := by
  induction parts generalizing items with
  | zero => rfl
  | succ parts ih =>
    have hdrop : ∀ i, (items.drop size).drop (i * size) = items.drop ((i + 1) * size) := by
      intro i
      rw [List.drop_drop, Nat.succ_mul, Nat.add_comm]
    rw [chunks, ih, List.range_succ_eq_map, List.map_cons, List.map_map, Nat.zero_mul,
      List.drop_zero]
    exact congrArg _ (List.map_congr_left fun i _ => congrArg _ (hdrop i))

/-- Copies of an array are what is cut into parts that are equal to it. -/
theorem chunks_eq_replicate_iff {block : List α} (h : items.length = parts * block.length) :
    chunks block.length parts items = List.replicate parts block ↔ items = copies parts block := by
  refine ⟨fun hparts => ?_, fun hitems => ?_⟩
  · rw [← flatten_chunks h.le, hparts, copies]
  · subst hitems
    clear h
    induction parts with
    | zero => rfl
    | succ parts ih =>
      rw [copies_succ, chunks, List.take_left, List.drop_left, ih, List.replicate_succ]

/-- Dividing an array cuts it into as many chunks, the size being the quotient rounded upwards. -/
theorem divideItems_eq (items : List Value) (n : Int64) :
    divideItems items n =
      if n ≤ 0 then .error (.partsNotPositive n)
      else bounded n.toInt.toNat >>= fun _ =>
        .ok (.array ((chunks (items.length ⌈/⌉ n.toInt.toNat) n.toInt.toNat items).map .array)) := by
  rw [Nat.ceilDiv_eq_add_pred_div]
  have hchunks := chunksFrom_eq [] ((items.length + n.toInt.toNat - 1) / n.toInt.toNat)
    n.toInt.toNat items
  rw [List.reverse_nil, List.nil_append] at hchunks
  rw [← hchunks]
  rfl

/-- **An array divided by an integer is cut into that many parts**, from 1 to 2 ^ 24. Put together
they are the array. No part is larger than the number of items divided by the number of parts,
rounded up, and a part before one that has items is as large as that. Other integers are refused:
zero and below for being no number of parts, larger ones for the size of the result. -/
theorem array_divided (items : List Value) (n : Int64) :
    (0 < n → n.toInt ≤ 2 ^ 24 → ∃ parts : List (List Value),
      binary .div (.array items) (.int n) = .ok (.array (parts.map .array)) ∧
      parts.length = n.toInt ∧ parts.flatten = items ∧
      (∀ c ∈ parts, c.length ≤ items.length ⌈/⌉ n.toInt.toNat) ∧
      parts.Pairwise fun c d => d ≠ [] → c.length = items.length ⌈/⌉ n.toInt.toNat) ∧
    (n ≤ 0 → ∃ e, binary .div (.array items) (.int n) = .error e ∧ e.kind = .argumentError) ∧
    (2 ^ 24 < n.toInt →
      ∃ e, binary .div (.array items) (.int n) = .error e ∧ e.kind = .arithmetic) := by
  have hbinary : binary .div (.array items) (.int n) = divideItems items n := rfl
  have hmax : maxBuiltLength = 2 ^ 24 := by decide
  rw [hbinary, divideItems_eq]
  refine ⟨fun hpos hle => ?parts, fun hnonpos => ?none, fun hlarge => ?large⟩
  case parts =>
    have hpos' : 0 < n.toInt := Int64.lt_iff_toInt_lt.1 hpos
    rw [if_neg (Int64.not_le.2 hpos), bounded_of_le (by omega)]
    refine ⟨_, rfl, ?_, flatten_chunks ?_, fun c hc => length_le_of_mem_chunks hc,
      pairwise_chunks _ _ items⟩
    · rw [length_chunks, Int.toNat_of_nonneg hpos'.le]
    -- the quotient rounded upwards is large enough for all items
    · exact (ceilDiv_le_iff_le_mul (by omega)).1 le_rfl
  case none =>
    rw [if_pos hnonpos]
    exact ⟨_, rfl, rfl⟩
  case large =>
    have hpos : 0 < n := Int64.lt_iff_toInt_lt.2 (show 0 < n.toInt by omega)
    have hbounded : bounded n.toInt.toNat = .error .tooLarge := if_neg (by omega)
    rw [if_neg (Int64.not_le.2 hpos), hbounded]
    exact ⟨_, rfl, rfl⟩

/-- Five items in four parts: two full ones, one with an item, one without. -/
theorem array_divided_five :
    (∃ parts : List (List Value),
      binary .div (.array (List.replicate 5 (.int 7))) (.int 4) = .ok (.array (parts.map .array)) ∧
      parts.length = 4 ∧ parts.flatten = List.replicate 5 (.int 7) ∧
      (∀ c ∈ parts, c.length ≤ 2) ∧ parts.Pairwise fun c d => d ≠ [] → c.length = 2) ∧
    (∃ e, binary .div (.array []) (.int 0) = .error e ∧ e.kind = .argumentError) ∧
    ∃ e, binary .div (.array []) (.int 16777217) = .error e ∧ e.kind = .arithmetic := by
  obtain ⟨parts, hdivided, hlength, hflatten, hle, hfull⟩ :=
    (array_divided (List.replicate 5 (.int 7)) 4).1 (by decide) (by decide)
  have hsize : (List.replicate 5 (Value.int 7)).length ⌈/⌉ (Int64.toInt 4).toNat = 2 := by
    rw [Nat.ceilDiv_eq_add_pred_div]
    decide
  rw [hsize] at hle hfull
  exact ⟨⟨parts, hdivided, Int.ofNat.inj hlength, hflatten, hle, hfull⟩,
    (array_divided [] 0).2.1 (by decide), (array_divided [] 16777217).2.2 (by decide)⟩

end BoxScript.Operator
