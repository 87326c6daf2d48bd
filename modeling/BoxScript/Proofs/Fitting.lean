import BoxScript.Proofs.Arithmetic
import BoxScript.Proofs.Occurrences
import BoxScript.Proofs.Words
import Mathlib.Data.String.Basic

/-!
# Words that fit

An operator in machine words is what `Operator.binary` says, as long as both operands are small
enough for a memory: no exact result is too large for its word, no slice leaves its array, and
nothing is divided by zero. For each function on the way there is one lemma about all its arguments.
A function that takes part in checks only is equal to a program without effect, or `Checks` what it
is to come to; one that builds `Realizes` it, at a cost that can be read off the answer.
-/

namespace BoxScript

/-- The bytes of a text, and the items of an array. -/
def Value.extent : Value → Nat
  | .str s => s.utf8ByteSize
  | .array items => items.length
  | _ => 0

/-- A value that a memory can hold. -/
def Value.Addressable (v : Value) : Prop := v.extent < 2 ^ 63

namespace Operator

/-- What `*` has built when it is done: the bytes of a text or the items of an array, and for two
arrays the items of all inner ones. Other operators do not count. -/
def copied (op : BinOp) (left right result : Value) : Nat :=
  match op, left, right, result with
  | .mul, .array _, .array _, .array rows => (rows.map Value.extent).sum
  | .mul, _, _, v => v.extent
  | _, _, _, _ => 0

end Operator

namespace Words

open Metered

variable {α β : Type}

/-! ## Programs that do not go wrong -/

/-- What is built for an outcome: `cost` of an answer, and nothing for an error. -/
def built (cost : α → Nat) : Except RuntimeError α → Nat
  | .ok a => cost a
  | .error _ => 0

/-- The program does not go wrong. It comes to `y`, and has built `cost` of its answer, which is in
bounds. In front of an error it has built nothing. -/
structure Realizes (x : Words α) (y : Except RuntimeError α) (cost : α → Nat) : Prop where
  outcome (n : Nat) : x.outcome n = some (y, n + built cost y)
  le : built cost y ≤ maxBuiltLength

/-- The program does not go wrong. It comes to `y` and builds nothing. -/
abbrev Checks (x : Words α) (y : Except RuntimeError α) : Prop := Realizes x y fun _ => 0

variable {x : Words α} {y : Except RuntimeError α} {f : α → Words β} {g : α → Except RuntimeError β}
  {cost : β → Nat}

theorem Realizes.pure {b : β} (h : cost b = 0) : Realizes (pure b) (.ok b) cost where
  outcome n := by simp [built, h]
  le := h.le.trans (Nat.zero_le _)

theorem Realizes.throw (e : RuntimeError) : Realizes (throw e) (.error e) cost where
  outcome _ := rfl
  le := Nat.zero_le _

theorem Checks.pure (a : α) : Checks (pure a) (.ok a) := Realizes.pure rfl

theorem Checks.ofExcept (y : Except RuntimeError α) : Checks (ofExcept y) y := by
  cases y with
  | ok a => exact Checks.pure a
  | error e => exact Realizes.throw e

/-- Behind something that builds nothing, a program goes on if that was not refused. -/
theorem Checks.bind (hx : Checks x y) (hf : ∀ a, y = .ok a → Realizes (f a) (g a) cost) :
    Realizes (x >>= f) (y >>= g) cost := by
  cases y with
  | ok a =>
    have hgo := hf a rfl
    exact ⟨fun n => (outcome_bind (hx.outcome n)).trans (hgo.outcome n), hgo.le⟩
  | error e => exact ⟨fun n => outcome_bind_error (hx.outcome n), Nat.zero_le _⟩

/-- Nothing is counted where the cost of an answer is zero. -/
theorem Checks.of_zero {cost : α → Nat} (h : Checks x y) (hcost : ∀ a, y = .ok a → cost a = 0) :
    Realizes x y cost := by
  cases y with
  | ok a =>
    have hbuilt : built cost (.ok a) = 0 := hcost a rfl
    exact ⟨fun n => hbuilt ▸ h.outcome n, hbuilt.trans_le (Nat.zero_le _)⟩
  | error e => exact ⟨h.outcome, Nat.zero_le _⟩

theorem Checks.mapM {items : List α} (h : ∀ a ∈ items, Checks (f a) (g a)) :
    Checks (items.mapM f) (items.mapM g) := by
  induction items with
  | nil => exact Checks.pure []
  | cons a items ih =>
    rw [List.mapM_cons, List.mapM_cons]
    refine Checks.bind (h a List.mem_cons_self) fun b _ => ?_
    refine Checks.bind (ih fun c hc => h c (List.mem_cons_of_mem a hc)) fun bs _ => ?_
    exact Checks.pure _

/-! ## Words that fit -/

theorem size?_of_lt {n : Nat} (h : n < 2 ^ 64) : size? n = some n := by
  rw [size?, if_pos ⟨by omega, by omega⟩, Int.toNat_natCast]

theorem size?_of_ge {n : Nat} (h : 2 ^ 64 ≤ n) : size? n = none := if_neg (by omega)

theorem size_of_lt {n : Nat} (h : n < 2 ^ 64) : size n = pure n := by
  rw [size, size?_of_lt h]

theorem int_toInt (n : Int64) : int n.toInt = pure n := by
  rw [int, fit_toInt]

theorem exists_toInt {r : Int} (h : -2 ^ 63 ≤ r) (h' : r < 2 ^ 63) : ∃ n : Int64, n.toInt = r :=
  ⟨.ofInt r, Int64.toInt_ofInt_of_le h h'⟩

/-- A length of something that is addressable is an integer. -/
theorem length_of_lt {n : Nat} (h : n < 2 ^ 63) :
    ∃ len : Int64, length n = pure len ∧ len.toInt = n := by
  obtain ⟨len, hlen⟩ := exists_toInt (r := n) (by omega) (by omega)
  exact ⟨len, by rw [length, ← hlen, int_toInt], hlen⟩

/-- A text has no more characters than bytes. -/
theorem length_le_utf8ByteSize (s : String) : s.length ≤ s.utf8ByteSize := by
  have hchars : ∀ cs : List Char, cs.length ≤ String.utf8Len cs := by
    intro cs
    induction cs with
    | nil => exact Nat.zero_le _
    | cons c cs ih =>
      have hpos := c.utf8Size_pos
      rw [String.utf8Len_cons, List.length_cons]
      omega
  rw [← String.length_toList, ← String.ofList_toList (s := s), String.utf8ByteSize_ofList,
    String.toList_ofList]
  exact hchars _

/-! ## Counts -/

/-- What would not fit in a word would not have been granted either. -/
theorem bounded_size? {n : Nat} {f : Nat → Words β} {g : Unit → Except RuntimeError β}
    (h : n ≤ maxBuiltLength → Realizes (f n) (g ()) cost) :
    Realizes (bounded (size? n) >>= f) (Operator.bounded n >>= g) cost := by
  by_cases hn : n ≤ maxBuiltLength
  · have hlt : n < 2 ^ 64 := hn.trans_lt (by decide)
    rw [size?_of_lt hlt, Operator.bounded_of_le hn, bounded, if_pos hn, pure_bind]
    exact h hn
  · have hlarge : Checks (bounded (size? n)) (.error .tooLarge) := by
      rcases Nat.lt_or_ge n (2 ^ 64) with hlt | hge
      · rw [size?_of_lt hlt, bounded, if_neg hn]
        exact Realizes.throw _
      · rw [size?_of_ge hge]
        exact Realizes.throw _
    rw [Operator.bounded, if_neg hn]
    exact ⟨fun m => outcome_bind_error (hlarge.outcome m), Nat.zero_le _⟩

/-- A count is taken as it is, unless it is negative. -/
theorem checks_count (n : Int64) : Checks (count n) (Operator.count n) := by
  have hlt := n.toInt_lt
  unfold count Operator.count size?
  by_cases hn : n < 0
  · have hneg : n.toInt < 0 := Int64.lt_iff_toInt_lt.1 hn
    rw [if_pos hn, if_neg (by omega)]
    exact Realizes.throw _
  · have hnonneg : 0 ≤ n.toInt := Int64.le_iff_toInt_le.1 (Int64.not_lt.1 hn)
    rw [if_neg hn, if_pos ⟨hnonneg, by omega⟩]
    exact Checks.pure _

/-- A repeat is granted in words as it is exactly. -/
theorem checks_repeatCount (unit : Nat) (n : Int64) :
    Checks (repeatCount unit n) (Operator.repeatCount unit n) := by
  refine Checks.bind (checks_count n) fun k _ => ?_
  by_cases hunit : unit = 0
  · rw [if_pos hunit, if_pos hunit]
    exact Checks.pure _
  · rw [if_neg hunit, if_neg hunit]
    rw [← Nat.cast_mul]
    exact bounded_size? fun _ => Checks.pure _

theorem repeatCount_of_ne {unit : Nat} (h : unit ≠ 0) (n : Int64) :
    Operator.repeatCount unit n = Operator.count n >>= fun k =>
      Operator.bounded (unit * k) >>= fun _ => .ok k := by
  unfold Operator.repeatCount
  simp only [if_neg h]
  rfl

/-- What is repeated stays in bounds. -/
theorem le_of_repeatCount {unit k : Nat} {n : Int64} (h : Operator.repeatCount unit n = .ok k) :
    unit * k ≤ maxBuiltLength := by
  by_cases hunit : unit = 0
  · rw [hunit, Nat.zero_mul]
    exact Nat.zero_le _
  rw [repeatCount_of_ne hunit] at h
  cases hcount : Operator.count n with
  | error e =>
    rw [hcount] at h
    cases h
  | ok m =>
    have hbounded : (Operator.bounded (unit * m) >>= fun _ => .ok m) = .ok k := by rwa [hcount] at h
    by_cases hle : unit * m ≤ maxBuiltLength
    · rw [Operator.bounded_of_le hle] at hbounded
      obtain rfl : m = k := Except.ok.inj hbounded
      exact hle
    · rw [Operator.bounded, if_neg hle] at hbounded
      cases hbounded

theorem le_of_shortened {length keep : Nat} {n : Int64}
    (h : Operator.shortened length n = .ok keep) : keep ≤ length := by
  unfold Operator.shortened at h
  split at h
  case isTrue => cases h
  case isFalse =>
    obtain rfl := Except.ok.inj h
    exact Nat.sub_le _ _

theorem checks_shortened {length : Nat} {len : Int64} (hlen : len.toInt = length) (n : Int64) :
    Checks (shortened len n) (Operator.shortened length n) := by
  have hshort : len < n ↔ (length : Int) < n.toInt := by rw [Int64.lt_iff_toInt_lt, hlen]
  unfold shortened Operator.shortened
  by_cases hn : n < 0 ∨ (length : Int) < n.toInt
  · rw [if_pos (by rwa [hshort]), if_pos hn, hlen, Int.toNat_natCast]
    exact Realizes.throw _
  · rw [if_neg (by rwa [hshort]), if_neg hn]
    have hnonneg : 0 ≤ n.toInt := Int64.le_iff_toInt_le.1 (Int64.not_lt.1 (not_or.1 hn).1)
    have hle : n.toInt ≤ length := Int.not_lt.1 (not_or.1 hn).2
    have hlt := len.toInt_lt
    obtain ⟨keep, hkeep⟩ := exists_toInt (r := len.toInt - n.toInt) (by omega) (by omega)
    have hsize : keep.toInt = (length - n.toInt.toNat : Nat) := by omega
    rw [← hkeep, int_toInt, pure_bind, hsize, size_of_lt (by omega)]
    exact Checks.pure _

/-! ## Strings -/

theorem checks_divideText {s : String} (hs : (Value.str s).Addressable) (n : Int64) :
    Checks (divideText s n) (Operator.divideText s n) := by
  unfold divideText Operator.divideText
  by_cases hn : n = 0
  · rw [if_pos hn, if_pos hn]
    exact Realizes.throw _
  obtain ⟨len, hlength, hlen⟩ := length_of_lt ((length_le_utf8ByteSize s).trans_lt hs)
  have hquotient : ((s.length : Int).tdiv n.toInt).natAbs ≤ s.length := by
    exact Int.natAbs_tdiv_le_natAbs _ _
  have hlt := len.toInt_lt
  obtain ⟨keep, hkeep⟩ := exists_toInt (r := (s.length : Int).tdiv n.toInt) (by omega) (by omega)
  rw [if_neg hn, if_neg hn, hlength, pure_bind, divide, if_neg hn, hlen, ← hkeep, int_toInt,
    pure_bind]
  by_cases hneg : keep.toInt < 0
  · rw [if_pos hneg, size?, if_neg (by omega)]
    exact Realizes.throw _
  · rw [if_neg hneg, size?, if_pos ⟨by omega, by omega⟩]
    exact Checks.pure _

/-- A repeated text is as many times as long. -/
theorem utf8ByteSize_repeatText (s : String) (n : Nat) :
    (Operator.repeatText s n).utf8ByteSize = s.utf8ByteSize * n := by
  induction n with
  | zero => rfl
  | succ n ih =>
    have hstep : Operator.repeatText s (n + 1) = Operator.repeatText s n ++ s := rfl
    rw [hstep, String.utf8ByteSize_append, ih, Nat.mul_succ]

theorem realizes_timesText (s : String) (n : Int64) :
    Realizes (timesText s n) (Operator.timesText s n) Value.extent := by
  refine Checks.bind (checks_repeatCount s.utf8ByteSize n) fun k hk => ?_
  have hle := le_of_repeatCount hk
  have hextent : (Value.str (Operator.repeatText s k)).extent = s.utf8ByteSize * k :=
    utf8ByteSize_repeatText s k
  rw [← Nat.cast_mul, size_of_lt (hle.trans_lt (by decide)), pure_bind]
  exact ⟨fun m => congrArg (fun b => some (_, m + b)) hextent.symm, hextent.trans_le hle⟩

/-! ## Arrays -/

theorem outcome_build (k n : Nat) : (build k).outcome n = some (.ok (), n + k) := rfl

/-- A row that is extended so many times costs so many units. -/
theorem outcome_extended (unit : List Value) (k : Nat) (row : List Value) (n : Nat) :
    (extended unit k row).outcome n = some (.ok (row ++ copies k unit), n + unit.length * k) := by
  induction k generalizing row n with
  | zero => simp [extended]
  | succ k ih =>
    rw [extended, outcome_bind (outcome_build unit.length n), ih, copies_succ, List.append_assoc,
      Nat.add_assoc, Nat.mul_succ, Nat.add_comm unit.length]

theorem realizes_timesItems (items : List Value) (n : Int64) :
    Realizes (timesItems items n) (Operator.timesItems items n) Value.extent := by
  refine Checks.bind (checks_repeatCount items.length n) fun k hk => ?_
  have hle := le_of_repeatCount hk
  have hextent : (Value.array (copies k items)).extent = items.length * k := by
    rw [Value.extent, length_copies, Nat.mul_comm]
  rw [← Nat.cast_mul, size_of_lt (hle.trans_lt (by decide)), pure_bind]
  refine ⟨fun m => ?_, hextent.trans_le hle⟩
  rw [outcome_bind (outcome_extended items k [] m), List.nil_append]
  exact congrArg (fun b => some (_, m + b)) hextent.symm

/-- Rounding up adds one if there is a rest. -/
theorem ceilDiv_eq {b : Nat} (hb : 0 < b) (a : Nat) :
    a ⌈/⌉ b = if 0 < a % b then a / b + 1 else a / b := by
  have hsum := Nat.mod_add_div a b
  have hrest := Nat.mod_lt a hb
  rw [Nat.ceilDiv_eq_add_pred_div]
  split
  case isTrue hpos =>
    exact Nat.div_eq_of_lt_le (by rw [Nat.succ_mul, Nat.mul_comm]; omega)
      (by rw [Nat.succ_mul, Nat.succ_mul, Nat.mul_comm]; omega)
  case isFalse hzero =>
    exact Nat.div_eq_of_lt_le (by rw [Nat.mul_comm]; omega)
      (by rw [Nat.succ_mul, Nat.mul_comm]; omega)

/-- The quotient rounded upwards does not overflow, since its operands are lengths. -/
theorem ceilDiv_of_lt {a b : Nat} (ha : a < 2 ^ 63) (hb : 0 < b) :
    ceilDiv a b = pure (a ⌈/⌉ b) := by
  have hle := Nat.div_le_self a b
  rw [ceilDiv, quotient, remainder, if_neg hb.ne', if_neg hb.ne', pure_bind, pure_bind,
    ceilDiv_eq hb]
  split
  · rw [← Nat.cast_succ, size_of_lt (by omega)]
  · rfl

theorem slice_of_le {items : List Value} {start stop : Nat} (h : start ≤ stop)
    (hstop : stop ≤ items.length) :
    slice items start stop = pure ((items.drop start).take (stop - start)) := if_pos ⟨h, hstop⟩

theorem part_of_lt {items : List Value} {unit i : Nat} (hi : i * unit < 2 ^ 64)
    (hunit : items.length + unit < 2 ^ 64) :
    part items unit i = pure (.array ((items.drop (i * unit)).take unit)) := by
  have hitems : (items.drop (min (i * unit) items.length)).take
      (min (min (i * unit) items.length + unit) items.length - min (i * unit) items.length) =
        (items.drop (i * unit)).take unit := by
    rcases Nat.le_total (i * unit) items.length with hle | hge
    · rw [Nat.min_eq_left hle, List.take_eq_take_iff, List.length_drop]
      omega
    · rw [Nat.min_eq_right hge, List.drop_of_length_le hge, List.drop_length, List.take_nil,
        List.take_nil]
  rw [part, ← Nat.cast_mul, size_of_lt hi, pure_bind]
  dsimp only
  rw [← Nat.cast_add, size_of_lt (by omega), pure_bind, slice_of_le (by omega) (by omega),
    pure_bind, hitems]

theorem mapM_eq_pure {f : α → Words β} {g : α → β} {items : List α}
    (h : ∀ a ∈ items, f a = pure (g a)) : items.mapM f = pure (items.map g) := by
  induction items with
  | nil => rfl
  | cons a items ih =>
    rw [List.mapM_cons, h a List.mem_cons_self, ih fun b hb => h b (List.mem_cons_of_mem a hb),
      pure_bind, pure_bind, List.map_cons]

theorem mapM_part {items : List Value} {unit parts : Nat} (hsum : parts * unit < 2 ^ 64)
    (hunit : items.length + unit < 2 ^ 64) :
    (List.range parts).mapM (part items unit) =
      pure ((Operator.chunks unit parts items).map .array) := by
  rw [Operator.chunks_eq_map, List.map_map]
  refine mapM_eq_pure fun i hi => part_of_lt ?_ hunit
  exact (Nat.mul_le_mul_right unit (List.mem_range.1 hi).le).trans_lt hsum

/-- An array is divided in words. -/
theorem checks_divideItems {items : List Value} (h : (Value.array items).Addressable) (n : Int64) :
    Checks (divideItems items n) (Operator.divideItems items n) := by
  replace h : items.length < 2 ^ 63 := h
  rw [divideItems, Operator.divideItems_eq]
  by_cases hn : n ≤ 0
  · rw [if_pos hn, if_pos hn]
    exact Realizes.throw _
  have hpos : 0 < n.toInt := Int64.lt_iff_toInt_lt.1 (Int64.not_le.1 hn)
  rw [if_neg hn, if_neg hn]
  obtain ⟨parts, hparts⟩ := Int.eq_ofNat_of_zero_le hpos.le
  rw [hparts, Int.toNat_natCast]
  refine bounded_size? fun hle => ?_
  have hparts : 0 < parts := by omega
  have hmax : maxBuiltLength < 2 ^ 63 := by decide
  -- the parts together are at most one item each longer than the array
  have hceil : items.length ⌈/⌉ parts ≤ items.length / parts + 1 :=
    (ceilDiv_le_iff_le_mul hparts).2 (Nat.lt_mul_div_succ _ hparts).le
  have hsum : parts * (items.length ⌈/⌉ parts) < 2 ^ 64 :=
    calc parts * (items.length ⌈/⌉ parts) ≤ parts * (items.length / parts + 1) :=
          Nat.mul_le_mul_left _ hceil
      _ = parts * (items.length / parts) + parts := Nat.mul_succ _ _
      _ ≤ items.length + parts := Nat.add_le_add_right (Nat.mul_div_le _ _) _
      _ < 2 ^ 64 := by omega
  have hunit : items.length ⌈/⌉ parts ≤ items.length :=
    (ceilDiv_le_iff_le_mul hparts).2 (Nat.le_mul_of_pos_left _ hparts)
  rw [ceilDiv_of_lt h hparts, pure_bind, mapM_part hsum (by omega), pure_bind]
  exact Checks.pure _

theorem withoutEnd_eq {a : List Value} (ha : (Value.array a).Addressable) (b : List Value) :
    withoutEnd a b = pure (if Operator.endsIn a b then a.take (a.length - b.length) else a) := by
  rw [withoutEnd]
  split
  case isTrue hends =>
    have hle := (Operator.endsIn_iff.1 hends).length_le
    replace ha : a.length < 2 ^ 63 := ha
    rw [← Nat.cast_sub hle, size_of_lt (by omega), pure_bind,
      slice_of_le (Nat.zero_le _) (Nat.sub_le _ _), List.drop_zero, Nat.sub_zero]
  case isFalse => rfl

/-- Counts add up in words as long as their sum fits. -/
theorem total?_eq (counts : List Nat) : total? counts = size? counts.sum := by
  have hfrom : ∀ total < 2 ^ 64,
      counts.foldlM (fun total n => size? ((total + n : Nat) : Int)) total =
        size? ((total + counts.sum : Nat) : Int) := by
    induction counts with
    | nil => exact fun total h => (size?_of_lt h).symm
    | cons n counts ih =>
      intro total _
      rw [List.foldlM_cons, List.sum_cons, ← Nat.add_assoc]
      rcases Nat.lt_or_ge (total + n) (2 ^ 64) with hlt | hge
      · rw [size?_of_lt hlt]
        exact ih _ hlt
      · rw [size?_of_ge hge, size?_of_ge (by omega)]
        rfl
  rw [total?, hfrom 0 (by decide), Nat.zero_add]

/-- The rows in which each item stands as often as its count says. -/
def rowsOf (items : List Value) (counts : List Nat) : List Value :=
  List.zipWith (fun item n => .array (List.replicate n item)) items counts

theorem rowsOf_cons (item : Value) (items : List Value) (n : Nat) (counts : List Nat) :
    rowsOf (item :: items) (n :: counts) =
      .array (List.replicate n item) :: rowsOf items counts := rfl

@[simp] theorem extent_replicate (n : Nat) (item : Value) :
    (Value.array (List.replicate n item)).extent = n := List.length_replicate

theorem outcome_rows (items : List Value) (counts : List Nat) (n : Nat) :
    (rows items counts).outcome n =
      some (.ok (rowsOf items counts), n + ((rowsOf items counts).map Value.extent).sum) := by
  induction items generalizing counts n with
  | nil => rfl
  | cons item items ih =>
    cases counts with
    | nil => rfl
    | cons k counts =>
      rw [rows, outcome_bind (outcome_build k n), outcome_bind (ih counts (n + k)), outcome_pure,
        rowsOf_cons, List.map_cons, List.sum_cons, extent_replicate, Nat.add_assoc]

theorem map_extent_rowsOf {items : List Value} {counts : List Nat}
    (h : items.length = counts.length) : (rowsOf items counts).map Value.extent = counts := by
  induction items generalizing counts with
  | nil => rw [List.eq_nil_of_length_eq_zero h.symm, rowsOf, List.zipWith_nil_left, List.map_nil]
  | cons item items ih =>
    cases counts with
    | nil => cases h
    | cons n counts =>
      rw [rowsOf_cons, List.map_cons, extent_replicate, ih (Nat.succ.inj h)]

theorem checks_countOf (c : Value) : Checks (countOf c) (Operator.countOf c) := by
  cases c with
  | int n => exact checks_count n
  | _ => exact Realizes.throw _

theorem realizes_timesEach (items counts : List Value) :
    Realizes (timesEach items counts) (Operator.timesEach items counts)
      (Operator.copied .mul (.array items) (.array counts)) := by
  refine Checks.bind (Checks.mapM fun c _ => checks_countOf c) fun ns _ => ?_
  by_cases hlength : items.length = ns.length
  · rw [if_neg (not_not.2 hlength), if_neg (not_not.2 hlength), total?_eq, ← List.sum_eq_foldl]
    refine bounded_size? fun hle => ?_
    have hsum := congrArg List.sum (map_extent_rowsOf hlength)
    refine ⟨fun n => ?_, hsum.trans_le hle⟩
    rw [outcome_bind (outcome_rows items ns n)]
    rfl
  · rw [if_pos hlength, if_pos hlength]
    exact Realizes.throw _

/-- Comparing part by part is comparing with a row of copies. -/
theorem all_chunks_eq {items block : List Value} {k : Nat} (h : items.length = k * block.length) :
    (Operator.chunks block.length k items).all (Value.sameItems · block) =
      Value.sameItems items (List.replicate k block).flatten := by
  rw [Bool.eq_iff_iff, Value.sameItems_iff_eq, ← copies, ← Operator.chunks_eq_replicate_iff h,
    List.eq_replicate_iff, List.all_eq_true]
  simp only [Value.sameItems_iff_eq, Operator.length_chunks, true_and]

/-- Blocks are counted in words, and there are no more of them than items. -/
theorem countBlocks_eq (items block : List Value) :
    countBlocks items block = pure (Operator.countBlocks items block) := by
  unfold countBlocks Operator.countBlocks
  by_cases hblock : block = []
  · subst hblock
    rfl
  have hpos : 0 < block.length := List.length_pos_iff.2 hblock
  have hempty : ¬block.isEmpty = true := mt List.isEmpty_iff.1 hblock
  rw [if_neg hempty, remainder, if_neg hpos.ne', pure_bind]
  by_cases hrest : items.length % block.length = 0
  · have hmul : items.length = items.length / block.length * block.length :=
      (Nat.div_mul_cancel (Nat.dvd_of_mod_eq_zero hrest)).symm
    have hceil : items.length ⌈/⌉ block.length = items.length / block.length := by
      rw [ceilDiv_eq hpos, if_neg (by omega)]
    rw [if_neg (not_not.2 hrest), if_neg (by simp [hempty, hrest]), slices, if_neg hpos.ne',
      pure_bind, hceil, all_chunks_eq hmul, quotient, if_neg hpos.ne']
    dsimp only
    split <;> rfl
  · rw [if_pos hrest, if_pos (by simp [hrest])]

/-! ## Integers -/

/-- The remainder by two is a word. -/
theorem int_tmod_two (n : Int64) :
    ∃ rest : Int64, int (n.toInt.tmod 2) = pure rest ∧ (rest = 0 ↔ n.toInt % 2 = 0) := by
  have habs : (n.toInt.tmod 2).natAbs < 2 := by
    rw [Int.natAbs_tmod]
    exact Nat.mod_lt _ (by decide)
  obtain ⟨rest, hrest⟩ := exists_toInt (r := n.toInt.tmod 2) (by omega) (by omega)
  refine ⟨rest, by rw [← hrest, int_toInt], ?_⟩
  rw [← Operator.toInt_eq_zero, hrest, ← Int.dvd_iff_tmod_eq_zero, Int.dvd_iff_emod_eq_zero]

/-- A power is taken in words. -/
theorem power_eq (base exponent : Int64) :
    power base exponent = pure (Operator.power? base.toInt exponent.toInt) := by
  have hone : base.toInt = 1 ↔ base = 1 := Int64.toInt_inj (y := 1)
  have hminus : base.toInt = -1 ↔ base = -1 := Int64.toInt_inj (y := -1)
  have hneg : exponent.toInt < 0 ↔ exponent < 0 := (Int64.lt_iff_toInt_lt (y := 0)).symm
  unfold power Operator.power?
  simp only [hone, hminus, hneg, Operator.toInt_eq_zero]
  by_cases h1 : base = 1
  · simp only [if_pos h1]
  simp only [if_neg h1]
  by_cases h2 : base = -1
  · obtain ⟨rest, hrest, heven⟩ := int_tmod_two exponent
    simp only [if_pos h2, hrest, pure_bind, heven]
  simp only [if_neg h2]
  by_cases h0 : base = 0
  · simp only [if_pos h0]
  simp only [if_neg h0]
  by_cases hnegative : exponent < 0
  · simp only [if_pos hnegative]
  simp only [if_neg hnegative]
  have hbase : 2 ≤ |base.toInt| :=
    two_le_abs (mt Operator.toInt_eq_zero.1 h0) (mt hone.1 h1) (mt hminus.1 h2)
  -- a base of two at least does not fit with such an exponent, whatever the sign of it
  by_cases hlarge : 64 ≤ exponent.toInt
  · have hnone : fit (base.toInt ^ exponent.toInt.toNat) = none :=
      fit_pow_of_large hbase (by omega)
    rw [if_pos hlarge, hnone, ite_self]
  · rw [if_neg hlarge, if_neg (by omega)]
    rfl

/-- Integers but powers are checked by the machine itself. -/
theorem ints_of_ne {op : BinOp} (h : op ≠ .pow) (a b : Int64) :
    ints op a b = ofExcept (Operator.ints op a b) := by
  cases op with
  | pow => exact absurd rfl h
  | _ => rfl

theorem checks_ints (op : BinOp) (a b : Int64) : Checks (ints op a b) (Operator.ints op a b) := by
  by_cases hop : op = .pow
  · subst hop
    rw [ints, power_eq, pure_bind, Operator.ints]
    cases Operator.power? a.toInt b.toInt with
    | some n => exact Checks.pure _
    | none => exact Realizes.throw _
  · rw [ints_of_ne hop]
    exact Checks.ofExcept _

/-! ## All kinds -/

section Comparisons

variable {len : Int64} {k : Nat}

theorem decide_lt_eq (h : len.toInt = k) (n : Int64) :
    decide (len < n) = decide ((k : Int) < n.toInt) := by
  rw [decide_eq_decide, Int64.lt_iff_toInt_lt, h]

theorem decide_le_eq (h : len.toInt = k) (n : Int64) :
    decide (len ≤ n) = decide ((k : Int) ≤ n.toInt) := by
  rw [decide_eq_decide, Int64.le_iff_toInt_le, h]

theorem beq_eq (h : len.toInt = k) (n : Int64) : (n == len) = (n.toInt == (k : Int)) := by
  rw [Bool.eq_iff_iff, beq_iff_eq, beq_iff_eq, ← h, Int64.toInt_inj]

theorem bne_eq (h : len.toInt = k) (n : Int64) : (n != len) = (n.toInt != (k : Int)) :=
  congrArg not (beq_eq h n)

end Comparisons

variable {op : BinOp} {left right : Value}

theorem realizes_int_str (op : BinOp) (n : Int64) {s : String} (hs : (Value.str s).Addressable) :
    Realizes (binary op (.int n) (.str s)) (Operator.binary op (.int n) (.str s))
      (Operator.copied op (.int n) (.str s)) := by
  obtain ⟨len, hlength, hlen⟩ := length_of_lt ((length_le_utf8ByteSize s).trans_lt hs)
  unfold binary Operator.binary
  cases op with
  | mul => exact realizes_timesText s n
  | gt | eq | ne =>
    simp only [hlength, pure_bind, decide_lt_eq hlen, beq_eq hlen, bne_eq hlen]
    exact Realizes.pure rfl
  | add => exact Realizes.pure rfl
  | _ => exact Realizes.throw _

theorem realizes_str_int (op : BinOp) {s : String} (hs : (Value.str s).Addressable) (n : Int64) :
    Realizes (binary op (.str s) (.int n)) (Operator.binary op (.str s) (.int n))
      (Operator.copied op (.str s) (.int n)) := by
  obtain ⟨len, hlength, hlen⟩ := length_of_lt ((length_le_utf8ByteSize s).trans_lt hs)
  unfold binary Operator.binary
  cases op with
  | add => exact Realizes.pure rfl
  | sub =>
    simp only [hlength, pure_bind]
    exact Checks.bind (checks_shortened hlen n) fun _ _ => Realizes.pure rfl
  | mul => exact realizes_timesText s n
  | div => exact checks_divideText hs n
  | lt | le | eq | ne =>
    simp only [hlength, pure_bind, decide_lt_eq hlen, decide_le_eq hlen, beq_eq hlen, bne_eq hlen]
    exact Realizes.pure rfl
  | _ => exact Realizes.throw _

theorem realizes_array_int (op : BinOp) {items : List Value} (h : (Value.array items).Addressable)
    (n : Int64) :
    Realizes (binary op (.array items) (.int n)) (Operator.binary op (.array items) (.int n))
      (Operator.copied op (.array items) (.int n)) := by
  obtain ⟨len, hlength, hlen⟩ := length_of_lt (show items.length < 2 ^ 63 from h)
  unfold binary Operator.binary
  simp only [hlength, pure_bind]
  cases op with
  | add => exact Realizes.pure rfl
  | sub =>
    refine Checks.bind (checks_shortened hlen n) fun keep hkeep => ?_
    rw [slice_of_le (Nat.zero_le _) (le_of_shortened hkeep), List.drop_zero, Nat.sub_zero,
      pure_bind]
    exact Realizes.pure rfl
  | mul => exact realizes_timesItems items n
  | div => exact checks_divideItems h n
  | lt | le | eq | ne =>
    simp only [decide_lt_eq hlen, decide_le_eq hlen, beq_eq hlen, bne_eq hlen]
    exact Realizes.pure rfl
  | _ => exact Realizes.throw _

theorem realizes_array_array (op : BinOp) {a : List Value} (ha : (Value.array a).Addressable)
    (b : List Value) :
    Realizes (binary op (.array a) (.array b)) (Operator.binary op (.array a) (.array b))
      (Operator.copied op (.array a) (.array b)) := by
  unfold binary Operator.binary
  simp only [withoutEnd_eq ha, countBlocks_eq, pure_bind]
  cases op with
  | mul => exact realizes_timesEach a b
  | add | sub | div | lt | gt | eq | ne => exact Realizes.pure rfl
  | _ => exact Realizes.throw _

theorem size_prepended {items : List Value} (h : (Value.array items).Addressable) :
    size (items.length + 1) = pure (items.length + 1) := by
  replace h : items.length < 2 ^ 63 := h
  exact_mod_cast size_of_lt (n := items.length + 1) (by omega)

/-- **The operators in machine words come to what the operators are.** -/
theorem realizes_binary (op : BinOp) {left right : Value} (hl : left.Addressable)
    (hr : right.Addressable) :
    Realizes (binary op left right) (Operator.binary op left right)
      (Operator.copied op left right) := by
  -- by the kinds of both operands; most pairs are refused by all operators or by all but one
  cases left with
  | void => exact Realizes.throw _
  | object => cases right <;> exact Realizes.throw _
  | int a =>
    cases right with
    | int b =>
      refine (checks_ints op a b).of_zero fun v hv => ?_
      cases op with
      | mul =>
        obtain ⟨n, rfl, -⟩ := Operator.exact_eq_ok_iff.1 hv
        rfl
      | _ => rfl
    | str s => exact realizes_int_str op a hr
    | array items =>
      unfold binary Operator.binary
      simp only [size_prepended hr, pure_bind]
      cases op with
      | add => exact Realizes.pure rfl
      | _ => exact Realizes.throw _
    | void | object => exact Realizes.throw _
  | str s =>
    cases right with
    | int n => exact realizes_str_int op hl n
    | str t =>
      refine (Checks.ofExcept (Operator.binary op (.str s) (.str t))).of_zero fun v hv => ?_
      cases op with
      | mul => cases hv
      | _ => rfl
    | array items =>
      unfold binary Operator.binary
      simp only [size_prepended hr, pure_bind]
      cases op with
      | add => exact Realizes.pure rfl
      | _ => exact Realizes.throw _
    | void | object => exact Realizes.throw _
  | array items =>
    cases right with
    | int n => exact realizes_array_int op hl n
    | str s =>
      cases op with
      | add => exact Realizes.pure rfl
      | _ => exact Realizes.throw _
    | array b => exact realizes_array_array op hl b
    | void | object => exact Realizes.throw _

end Words

end BoxScript
