import BoxScript.Proofs.Fitting

/-!
# How much an operator builds

What `*` is asked for can be counted before any of it is built: a length times a count, or a sum of
counts. Up to `maxBuiltLength` it is built as asked, and beyond it is refused. None of the operators
goes wrong on the way to an answer or an error, and in front of an error nothing has been built.
-/

namespace BoxScript

namespace Operator

/-! ## What is asked of `*` -/

/-- The operands of `*` ask for so many bytes or items. -/
inductive Asks : Value → Value → Nat → Prop
  | text (s : String) {n : Int64} (hn : 0 ≤ n) :
    Asks (.str s) (.int n) (s.utf8ByteSize * n.toInt.toNat)
  | textBehind (s : String) {n : Int64} (hn : 0 ≤ n) :
    Asks (.int n) (.str s) (s.utf8ByteSize * n.toInt.toNat)
  | items (items : List Value) {n : Int64} (hn : 0 ≤ n) :
    Asks (.array items) (.int n) (items.length * n.toInt.toNat)
  | each {items : List Value} {counts : List Int64} (hcounts : ∀ n ∈ counts, 0 ≤ n)
    (hlength : items.length = counts.length) :
    Asks (.array items) (.array (counts.map .int)) (counts.map (·.toInt.toNat)).sum

/-- A request that is larger than the limit is refused before anything is built. -/
theorem repeatCount_of_gt {unit : Nat} {n : Int64} (h : 0 ≤ n)
    (hlarge : maxBuiltLength < unit * n.toInt.toNat) : repeatCount unit n = .error .tooLarge := by
  have hunit : unit ≠ 0 := by
    rintro rfl
    simp at hlarge
  have hbounded : bounded (unit * n.toInt.toNat) = .error .tooLarge := if_neg (Nat.not_le.2 hlarge)
  rw [Words.repeatCount_of_ne hunit, count_of_nonneg h]
  show bounded (unit * n.toInt.toNat) >>= _ = _
  rw [hbounded]
  rfl

/-- A count in bounds is the one that is asked for, as far as there is something to repeat. -/
theorem exists_repeatCount {unit : Nat} {n : Int64} (h : 0 ≤ n)
    (hle : unit * n.toInt.toNat ≤ maxBuiltLength) :
    ∃ k, repeatCount unit n = .ok k ∧ unit * k = unit * n.toInt.toNat := by
  have hbound : (unit : Int) * n.toInt ≤ maxBuiltLength := by
    rw [← Int.toNat_of_nonneg (Int64.le_iff_toInt_le.1 h)]
    exact_mod_cast hle
  refine ⟨_, repeatCount_of_le h hbound, ?_⟩
  split
  case isTrue hunit => rw [hunit, Nat.zero_mul, Nat.zero_mul]
  case isFalse => rfl

theorem mapM_countOf {counts : List Int64} (h : ∀ n ∈ counts, 0 ≤ n) :
    (counts.map Value.int).mapM countOf = .ok (counts.map (·.toInt.toNat)) := by
  induction counts with
  | nil => rfl
  | cons n counts ih =>
    have hcount : countOf (.int n) = .ok n.toInt.toNat := count_of_nonneg (h n List.mem_cons_self)
    rw [List.map_cons, List.mapM_cons, hcount, ih fun m hm => h m (List.mem_cons_of_mem n hm)]
    rfl

/-- Items that are repeated each by a count of their own are counted first, all together. -/
theorem timesEach_eq {items : List Value} {counts : List Int64} (h : ∀ n ∈ counts, 0 ≤ n)
    (hlength : items.length = counts.length) :
    timesEach items (counts.map .int) =
      bounded (counts.map (·.toInt.toNat)).sum >>= fun _ =>
        .ok (.array (Words.rowsOf items (counts.map (·.toInt.toNat)))) := by
  have hlength' : ¬items.length ≠ (counts.map (·.toInt.toNat)).length := by
    rw [List.length_map]
    exact not_not.2 hlength
  rw [timesEach, mapM_countOf h, List.sum_eq_foldl]
  show (if items.length ≠ (counts.map (·.toInt.toNat)).length then _ else _) = _
  rw [if_neg hlength']
  rfl

variable {left right : Value} {n : Nat}

/-- What is in bounds is built as it was asked for. -/
theorem Asks.granted (h : Asks left right n) (hle : n ≤ maxBuiltLength) :
    ∃ v, binary .mul left right = .ok v ∧ copied .mul left right v = n := by
  cases h with
  | text s hn | textBehind s hn =>
    obtain ⟨k, hk, hsize⟩ := exists_repeatCount hn hle
    refine ⟨.str (repeatText s k), ?_, (Words.utf8ByteSize_repeatText s k).trans hsize⟩
    show timesText s _ = _
    rw [timesText, hk]
    rfl
  | items items hn =>
    obtain ⟨k, hk, hsize⟩ := exists_repeatCount hn hle
    have hlength : (copies k items).length = items.length * k := by
      rw [length_copies, Nat.mul_comm]
    refine ⟨.array (copies k items), ?_, hlength.trans hsize⟩
    show timesItems items _ = _
    rw [timesItems, hk]
    rfl
  | @each items counts hcounts hlength =>
    have hrows : (Words.rowsOf items (counts.map (·.toInt.toNat))).map Value.extent =
        counts.map (·.toInt.toNat) :=
      Words.map_extent_rowsOf (by rw [hlength, List.length_map])
    refine ⟨.array (Words.rowsOf items (counts.map (·.toInt.toNat))), ?_, congrArg List.sum hrows⟩
    show timesEach items _ = _
    rw [timesEach_eq hcounts hlength, bounded_of_le hle]
    rfl

/-- What is beyond the bound is refused. -/
theorem Asks.refused (h : Asks left right n) (hlarge : maxBuiltLength < n) :
    binary .mul left right = .error .tooLarge := by
  cases h with
  | text s hn | textBehind s hn =>
    show timesText s _ = _
    rw [timesText, repeatCount_of_gt hn hlarge]
    rfl
  | items items hn =>
    show timesItems items _ = _
    rw [timesItems, repeatCount_of_gt hn hlarge]
    rfl
  | @each items counts hcounts hlength =>
    have hbounded : bounded (counts.map (·.toInt.toNat)).sum = .error .tooLarge :=
      if_neg (Nat.not_le.2 hlarge)
    show timesEach items _ = _
    rw [timesEach_eq hcounts hlength, hbounded]
    rfl

end Operator

/-- **No operator goes wrong.** Between any two values that a memory can hold, an operator in
machine words ends, and as `Operator.binary` says: on the way each sum, product, quotient and
conversion is exact, and each slice is in range. Where the operands are refused, nothing has been
built, and where they are not, `*` has built its answer, which has at most 2 ^ 24 bytes or items,
for two arrays at most as many in all rows together. What `*` is asked for decides: up to that bound
it is built as asked, and beyond it is refused. -/
theorem no_operator_goes_wrong (op : BinOp) (left right : Value) (hl : left.Addressable)
    (hr : right.Addressable) :
    (∃ built, (Words.binary op left right).outcome 0 =
        some (Operator.binary op left right, built) ∧
      (∀ e, Operator.binary op left right = .error e → built = 0) ∧
      ∀ v, Operator.binary op left right = .ok v →
        built = Operator.copied op left right v ∧ built ≤ 2 ^ 24) ∧
    ∀ n, Operator.Asks left right n →
      (n ≤ 2 ^ 24 → ∃ v, Operator.binary .mul left right = .ok v ∧
        Operator.copied .mul left right v = n) ∧
      (2 ^ 24 < n → Operator.binary .mul left right = .error .tooLarge) := by
  obtain ⟨houtcome, hle⟩ := Words.realizes_binary op hl hr
  have hmax : maxBuiltLength = 2 ^ 24 := by decide
  rw [hmax] at hle
  refine ⟨⟨_, Nat.zero_add _ ▸ houtcome 0, fun e he => ?error, fun v hv => ?answer⟩,
    fun n hn => ⟨fun h => hn.granted (hmax ▸ h), fun h => hn.refused (hmax ▸ h)⟩⟩
  case error =>
    rw [he]
    rfl
  case answer =>
    rw [hv] at hle ⊢
    exact ⟨rfl, hle⟩

instance (v : Value) : Decidable v.Addressable := inferInstanceAs (Decidable (_ < _))

/-- Two copies of one item and the largest number of the other are refused with nothing built,
though the sum of these counts is no integer any more. Of a text, bytes are counted and not
characters. -/
theorem no_operator_goes_wrong_huge :
    (Words.binary .mul (.array [.int 7, .int 8]) (.array [.int 2, .int Int64.maxValue])).outcome 0
      = some (.error .tooLarge, 0) ∧
    (Words.binary .mul (.str "né") (.int 2)).outcome 0 = some (.ok (.str "néné"), 6) := by
  obtain ⟨⟨built, hhuge, hnone, -⟩, hasks⟩ := no_operator_goes_wrong .mul
    (.array [.int 7, .int 8]) (.array [.int 2, .int Int64.maxValue]) (by decide) (by decide)
  obtain ⟨⟨built', htext, -, hbuilt⟩, -⟩ :=
    no_operator_goes_wrong .mul (.str "né") (.int 2) (by decide) (by decide)
  have hasked : Operator.Asks (.array [.int 7, .int 8]) (.array [.int 2, .int Int64.maxValue])
      9223372036854775809 :=
    @Operator.Asks.each [.int 7, .int 8] [2, Int64.maxValue] (by simp) rfl
  have hrefused := (hasks _ hasked).2 (by decide)
  have hanswer : Operator.binary .mul (.str "né") (.int 2) = .ok (.str "néné") := by rfl
  rw [hhuge, hnone _ hrefused, hrefused, htext, (hbuilt _ hanswer).1, hanswer]
  exact ⟨rfl, rfl⟩

end BoxScript
