import BoxScript.Extension
import BoxScript.Proofs.Rows
import Mathlib.Order.Bounds.Basic

/-!
# Occurrences

Three operations look for one text in another: minus takes copies of it off the end, dividing
counts its occurrences, and `split` cuts at them. Each of them searches in its own way, and they
agree. A text is read as the two that go from left to right read it: it starts with the text looked
for, and reading goes on behind that, or it does not, and reading goes on behind one character.
-/

namespace BoxScript

namespace Text

variable {s t rest : List Char} {c : Char}

/-! ## Reading from left to right -/

theorem after?_append (t rest : List Char) : after? t (t ++ rest) = some rest :=
  after?_eq_some_iff.2 rfl

theorem prefix_of_after? (h : after? t s = some rest) : t <+: s :=
  ⟨rest, (after?_eq_some_iff.1 h).symm⟩

theorem countFrom_hit (a : Char) (t rest : List Char) (found : Nat) :
    countFrom a t found (a :: (t ++ rest)) = countFrom a t (found + 1) rest := by
  have hafter := after?_append t rest
  rw [countFrom, if_pos rfl]
  split
  case h_1 rest' h =>
    rw [Option.some.inj (h.symm.trans hafter)]
  case h_2 h =>
    rw [hafter] at h
    cases h

/-- Where there is none the search goes on with the next character. -/
theorem countFrom_miss {a : Char} (h : ¬a :: t <+: c :: s) (found : Nat) :
    countFrom a t found (c :: s) = countFrom a t found s := by
  rw [countFrom]
  split
  case isTrue hac =>
    split
    case h_1 hrest => exact absurd (List.cons_prefix_cons.2 ⟨hac, prefix_of_after? hrest⟩) h
    case h_2 => rfl
  case isFalse => rfl

theorem splitFrom_hit (a : Char) (t rest : List Char) (pieces : List (List Char))
    (piece : List Char) :
    splitFrom a t pieces piece (a :: (t ++ rest)) =
      splitFrom a t (piece.reverse :: pieces) [] rest := by
  have hafter := after?_append t rest
  rw [splitFrom, if_pos rfl]
  split
  case h_1 rest' h =>
    rw [Option.some.inj (h.symm.trans hafter)]
  case h_2 h =>
    rw [hafter] at h
    cases h

theorem splitFrom_miss {a : Char} (h : ¬a :: t <+: c :: s) (pieces : List (List Char))
    (piece : List Char) :
    splitFrom a t pieces piece (c :: s) = splitFrom a t pieces (c :: piece) s := by
  rw [splitFrom]
  split
  case isTrue hac =>
    split
    case h_1 hrest => exact absurd (List.cons_prefix_cons.2 ⟨hac, prefix_of_after? hrest⟩) h
    case h_2 => rfl
  case isFalse => rfl

/-- A text is empty, or starts with `t`, or has a first character at which `t` does not start. -/
theorem reading_induction {motive : List Char → Prop} (ht : t ≠ []) (nil : motive [])
    (hit : ∀ rest, motive rest → motive (t ++ rest))
    (miss : ∀ c s, ¬t <+: c :: s → motive s → motive (c :: s)) (s : List Char) : motive s := by
  match s with
  | [] => exact nil
  | c :: cs =>
    by_cases h : t <+: c :: cs
    · obtain ⟨rest, hrest⟩ := h
      have hshorter : rest.length < (c :: cs).length := by
        have hpos := List.length_pos_iff.2 ht
        rw [← hrest, List.length_append]
        omega
      rw [← hrest]
      exact hit rest (reading_induction ht nil hit miss rest)
    · exact miss c cs h (reading_induction ht nil hit miss cs)
termination_by s.length
decreasing_by
  · exact hshorter
  · exact Nat.lt_succ_self _

theorem countFrom_found (a : Char) (t : List Char) (found : Nat) (s : List Char) :
    countFrom a t found s = found + countFrom a t 0 s := by
  induction s using reading_induction (List.cons_ne_nil a t) generalizing found with
  | nil => simp [countFrom]
  | hit rest ih =>
    rw [List.cons_append, countFrom_hit, countFrom_hit, ih, ih (0 + 1)]
    omega
  | miss c s h ih => rw [countFrom_miss h, countFrom_miss h, ih]

theorem splitFrom_pieces (a : Char) (t : List Char) (pieces : List (List Char))
    (piece s : List Char) :
    splitFrom a t pieces piece s =
      pieces.reverse ++ (splitFrom a t [] [] s).modifyHead (piece.reverse ++ ·) := by
  induction s using reading_induction (List.cons_ne_nil a t) generalizing pieces piece with
  | nil => simp [splitFrom]
  | hit rest ih =>
    -- the piece being read is complete, so it is one of the pieces found
    rw [List.cons_append, splitFrom_hit, splitFrom_hit, ih, ih [[].reverse]]
    simp
  | miss c s h ih =>
    rw [splitFrom_miss h, splitFrom_miss h, ih, ih [] [c]]
    simp [Function.comp_def]

/-! ## Counting -/

@[simp] theorem count_nil (t : List Char) : count [] t = 0 := by
  cases t <;> simp [count, countFrom]

theorem count_hit (ht : t ≠ []) (rest : List Char) : count (t ++ rest) t = count rest t + 1 := by
  cases t with
  | nil => exact absurd rfl ht
  | cons a t =>
    show countFrom a t 0 (a :: (t ++ rest)) = countFrom a t 0 rest + 1
    rw [countFrom_hit, countFrom_found]
    omega

theorem count_miss (h : ¬t <+: c :: s) : count (c :: s) t = count s t := by
  cases t with
  | nil => exact absurd List.nil_prefix h
  | cons a t => exact countFrom_miss h 0

theorem count_copies (ht : t ≠ []) (n : Nat) : count (copies n t) t = n := by
  induction n with
  | zero => exact count_nil t
  | succ n ih => rw [copies_succ, count_hit ht, ih]

/-- Where `t` occurs in `s`, from left to right: each occurrence starts behind the one before. -/
structure Apart (s t : List Char) (starts : List Nat) : Prop where
  occurs : ∀ i ∈ starts, t <+: s.drop i
  apart : starts.Pairwise fun i j => i + t.length ≤ j

theorem apart_nil (s t : List Char) : Apart s t [] := ⟨nofun, .nil⟩

/-- The occurrences behind a part of the text, in the whole text. -/
theorem Apart.append {starts : List Nat} (h : Apart rest t starts) (before : List Char) :
    Apart (before ++ rest) t (starts.map (before.length + ·)) where
  occurs i hi := by
    obtain ⟨j, hj, rfl⟩ := List.mem_map.1 hi
    rw [List.drop_length_add_append]
    exact h.occurs j hj
  apart := List.pairwise_map.2 (h.apart.imp fun hij => by omega)

/-- The occurrences that lie behind a part of the text. -/
theorem Apart.drop {before : List Char} {starts : List Nat}
    (h : Apart (before ++ rest) t starts) (hbehind : ∀ i ∈ starts, before.length ≤ i) :
    Apart rest t (starts.map (· - before.length)) where
  occurs i hi := by
    obtain ⟨j, hj, rfl⟩ := List.mem_map.1 hi
    obtain ⟨k, rfl⟩ := Nat.exists_eq_add_of_le (hbehind j hj)
    have hoccurs := h.occurs _ hj
    rw [List.drop_length_add_append] at hoccurs
    rwa [Nat.add_sub_cancel_left]
  apart := by
    rw [List.pairwise_map]
    refine h.apart.imp_of_mem fun hi _ hij => ?_
    have := hbehind _ hi
    omega

theorem apart_count (ht : t ≠ []) (s : List Char) :
    ∃ starts, Apart s t starts ∧ starts.length = count s t := by
  induction s using reading_induction ht with
  | nil => exact ⟨[], apart_nil [] t, (count_nil t).symm⟩
  | hit rest ih =>
    obtain ⟨starts, hstarts, hlength⟩ := ih
    -- `t` occurs at the start, and all other occurrences are moved behind it
    obtain ⟨hoccurs, hapart⟩ := hstarts.append t
    refine ⟨0 :: starts.map (t.length + ·), ⟨?_, ?_⟩, ?_⟩
    · exact List.forall_mem_cons.2 ⟨List.prefix_append t rest, hoccurs⟩
    · refine List.pairwise_cons.2 ⟨fun j hj => ?_, hapart⟩
      obtain ⟨k, -, rfl⟩ := List.mem_map.1 hj
      omega
    · rw [count_hit ht, List.length_cons, List.length_map, hlength]
  | miss c s h ih =>
    obtain ⟨starts, hstarts, hlength⟩ := ih
    exact ⟨_, hstarts.append [c], by rw [List.length_map, hlength, count_miss h]⟩

/-- No choice of occurrences beats taking each one that comes first. -/
theorem Apart.length_le_count (ht : t ≠ []) {starts : List Nat} (h : Apart s t starts) :
    starts.length ≤ count s t := by
  induction s using reading_induction ht generalizing starts with
  | nil =>
    cases starts with
    | nil => exact Nat.zero_le _
    | cons i starts =>
      have hstart := h.occurs i List.mem_cons_self
      rw [List.drop_nil, List.prefix_nil] at hstart
      exact absurd hstart ht
  | hit rest ih =>
    cases starts with
    | nil => exact Nat.zero_le _
    | cons i starts =>
      -- the first of them reaches to the end of `t` at least, so the others lie in the rest
      obtain ⟨hfirst, hapart⟩ := List.pairwise_cons.1 h.apart
      have hothers : Apart (t ++ rest) t starts :=
        ⟨fun j hj => h.occurs j (List.mem_cons_of_mem i hj), hapart⟩
      have hle := ih (hothers.drop fun j hj => by have := hfirst j hj; omega)
      rw [List.length_map] at hle
      rw [count_hit ht, List.length_cons]
      omega
  | miss c s hmiss ih =>
    have hpos : ∀ i ∈ starts, [c].length ≤ i := by
      intro i hi
      rcases Nat.eq_zero_or_pos i with rfl | hpos
      · exact absurd (h.occurs 0 hi) hmiss
      · exact hpos
    have hbehind : Apart ([c] ++ s) t starts := h
    have hle := ih (hbehind.drop hpos)
    rwa [List.length_map, ← count_miss hmiss] at hle

/-- The number of occurrences is the largest number of occurrences none of which overlap. -/
theorem isGreatest_count (ht : t ≠ []) (s : List Char) :
    IsGreatest {n | ∃ starts, Apart s t starts ∧ starts.length = n} (count s t) := by
  refine ⟨apart_count ht s, ?_⟩
  rintro n ⟨starts, hstarts, rfl⟩
  exact hstarts.length_le_count ht

/-! ## Splitting -/

theorem split_nil (ht : t ≠ []) : split [] t = [[]] := by
  cases t with
  | nil => exact absurd rfl ht
  | cons a t => simp [split, splitFrom]

theorem split_hit (ht : t ≠ []) (rest : List Char) :
    split (t ++ rest) t = [] :: split rest t := by
  cases t with
  | nil => exact absurd rfl ht
  | cons a t =>
    show splitFrom a t [] [] (a :: (t ++ rest)) = [] :: splitFrom a t [] [] rest
    rw [splitFrom_hit, splitFrom_pieces]
    exact congrArg ([] :: ·) (congrFun List.modifyHead_id _)

theorem split_miss (h : ¬t <+: c :: s) :
    split (c :: s) t = (split s t).modifyHead (c :: ·) := by
  cases t with
  | nil => exact absurd List.nil_prefix h
  | cons a t =>
    show splitFrom a t [] [] (c :: s) = (splitFrom a t [] [] s).modifyHead (c :: ·)
    rw [splitFrom_miss h, splitFrom_pieces]
    rfl

theorem length_split (ht : t ≠ []) (s : List Char) : (split s t).length = count s t + 1 := by
  induction s using reading_induction ht with
  | nil => rw [split_nil ht, count_nil, List.length_singleton]
  | hit rest ih => rw [split_hit ht, count_hit ht, List.length_cons, ih]
  | miss c s h ih => rw [split_miss h, count_miss h, List.length_modifyHead, ih]

theorem exists_split_eq_cons (ht : t ≠ []) (s : List Char) : ∃ p ps, split s t = p :: ps :=
  List.exists_cons_of_length_eq_add_one (length_split ht s)

theorem intercalate_split (s t : List Char) : t.intercalate (split s t) = s := by
  by_cases ht : t = []
  · subst ht
    simp [split]
  induction s using reading_induction ht with
  | nil => simp [split_nil ht]
  | hit rest ih =>
    obtain ⟨p, ps, hsplit⟩ := exists_split_eq_cons ht rest
    rw [split_hit ht]
    rw [hsplit] at ih ⊢
    simp [ih]
  | miss c s h ih =>
    obtain ⟨p, ps, hsplit⟩ := exists_split_eq_cons ht s
    rw [split_miss h]
    rw [hsplit] at ih ⊢
    simp [ih]

theorem prefix_of_split {p : List Char} {ps : List (List Char)} (h : split s t = p :: ps) :
    p <+: s := by
  have hs := intercalate_split s t
  rw [h] at hs
  cases ps with
  | nil =>
    rw [List.intercalate_singleton] at hs
    exact ⟨[], by rw [hs, List.append_nil]⟩
  | cons q ps =>
    rw [List.intercalate_cons_cons, List.append_assoc] at hs
    exact ⟨_, hs⟩

theorem not_infix_of_mem_split (ht : t ≠ []) (s : List Char) :
    ∀ p ∈ split s t, ¬t <:+: p := by
  have hempty : ¬t <:+: [] := fun h => ht (List.infix_nil.1 h)
  induction s using reading_induction ht with
  | nil => simpa [split_nil ht] using hempty
  | hit rest ih =>
    rw [split_hit ht]
    exact List.forall_mem_cons.2 ⟨hempty, ih⟩
  | miss c s h ih =>
    obtain ⟨p, ps, hsplit⟩ := exists_split_eq_cons ht s
    rw [split_miss h]
    rw [hsplit] at ih ⊢
    obtain ⟨hp, hps⟩ := List.forall_mem_cons.1 ih
    refine List.forall_mem_cons.2 ⟨fun hinfix => ?_, hps⟩
    -- an occurrence in the longer first piece is one at the character that was read as a miss
    rcases List.infix_cons_iff.1 hinfix with hstart | hinfix
    · exact h (hstart.trans (List.cons_prefix_cons.2 ⟨rfl, prefix_of_split hsplit⟩))
    · exact hp hinfix

/-! ## Copies at the end -/

theorem dropCopies_hit (a : Char) (t rest : List Char) :
    dropCopies a t (a :: (t ++ rest)) = dropCopies a t rest := by
  have hafter : after? (a :: t) (a :: (t ++ rest)) = some rest := after?_append (a :: t) rest
  rw [dropCopies]
  split
  case h_1 rest' h =>
    rw [Option.some.inj (h.symm.trans hafter)]
  case h_2 h =>
    rw [hafter] at h
    cases h

theorem dropCopies_miss {a : Char} (h : ¬a :: t <+: s) : dropCopies a t s = s := by
  rw [dropCopies]
  split
  case h_1 hrest => exact absurd (prefix_of_after? hrest) h
  case h_2 => rfl

/-- What is left does not begin with the text that was dropped, and only copies of it were. -/
theorem dropCopies_spec (a : Char) (t s : List Char) :
    ¬a :: t <+: dropCopies a t s ∧ ∃ n, s = copies n (a :: t) ++ dropCopies a t s := by
  induction s using reading_induction (List.cons_ne_nil a t) with
  | nil =>
    have hnil : ¬a :: t <+: [] := fun h => List.cons_ne_nil a t (List.prefix_nil.1 h)
    rw [dropCopies_miss hnil]
    exact ⟨hnil, 0, rfl⟩
  | hit rest ih =>
    obtain ⟨hends, n, hn⟩ := ih
    rw [List.cons_append, dropCopies_hit]
    refine ⟨hends, n + 1, ?_⟩
    rw [copies_succ, List.append_assoc, ← hn, List.cons_append]
  | miss c s h =>
    rw [dropCopies_miss h]
    exact ⟨h, 0, rfl⟩

/-- `r` is `s` without copies of `t` at its end, and does not end in another one. -/
structure Stripped (s t r : List Char) : Prop where
  taken : ∃ n, s = r ++ copies n t
  ends : ¬t <:+ r

theorem stripped_dropCopiesEnd (ht : t ≠ []) (s : List Char) :
    Stripped s t (dropCopiesEnd s t) := by
  obtain ⟨a, u, hu⟩ := List.exists_cons_of_ne_nil (mt List.reverse_eq_nil_iff.1 ht)
  have hdrop : dropCopiesEnd s t = (dropCopies a u s.reverse).reverse := by
    rw [dropCopiesEnd, hu]
  -- copies at the end are copies at the start of the text read backwards
  obtain ⟨hnone, n, hn⟩ := dropCopies_spec a u s.reverse
  rw [← hu] at hnone hn
  rw [hdrop]
  constructor
  · refine ⟨n, ?_⟩
    have hreverse := congrArg List.reverse hn
    rwa [List.reverse_append, List.reverse_reverse, reverse_copies, List.reverse_reverse]
      at hreverse
  · rwa [← List.reverse_prefix, List.reverse_reverse]

/-- Only one text is left when copies are taken off the end as long as there are any. -/
theorem eq_of_append_copies {p q : List Char} (hp : ¬t <:+ p) (hq : ¬t <:+ q) {n m : Nat}
    (h : p ++ copies n t = q ++ copies m t) : q = p := by
  induction n generalizing m with
  | zero =>
    cases m with
    | zero => simpa using h.symm
    | succ m =>
      rw [copies_zero, List.append_nil, copies_succ_right, ← List.append_assoc] at h
      exact absurd ⟨_, h.symm⟩ hp
  | succ n ih =>
    rw [copies_succ_right, ← List.append_assoc] at h
    cases m with
    | zero =>
      rw [copies_zero, List.append_nil] at h
      exact absurd ⟨_, h⟩ hq
    | succ m =>
      rw [copies_succ_right, ← List.append_assoc] at h
      exact ih (List.append_cancel_right h)

theorem stripped_iff (ht : t ≠ []) {r : List Char} : Stripped s t r ↔ r = dropCopiesEnd s t := by
  have hspec := stripped_dropCopiesEnd ht s
  refine ⟨fun h => ?_, fun h => h ▸ hspec⟩
  obtain ⟨n, hn⟩ := hspec.taken
  obtain ⟨m, hm⟩ := h.taken
  exact eq_of_append_copies hspec.ends h.ends (hn.symm.trans hm)

end Text

/-! ## Strings -/

theorem Operator.toList_repeatText (s : String) (n : Nat) :
    (repeatText s n).toList = copies n s.toList := by
  induction n with
  | zero => rfl
  | succ n ih =>
    have hstep : repeatText s (n + 1) = repeatText s n ++ s := rfl
    rw [hstep, String.toList_append, ih, copies_succ_right]

theorem Operator.timesText_of_le {s : String} {n : Int64} (h : 0 ≤ n)
    (hbound : s.utf8ByteSize * n.toInt ≤ maxBuiltLength) :
    ∃ row : String, timesText s n = .ok (.str row) ∧ row.toList = copies n.toInt.toNat s.toList := by
  unfold timesText
  rw [repeatCount_of_le h hbound]
  refine ⟨_, rfl, ?_⟩
  rw [toList_repeatText]
  split
  case isTrue hsize =>
    rw [String.utf8ByteSize_eq_zero_iff] at hsize
    simp [hsize]
  case isFalse => rfl

theorem callBuiltin_split (s t : String) (m : Machine) :
    callBuiltin "split" (.str s) [.str t] m
      = ⟨.ok (.array ((Text.split s.toList t.toList).map fun p => .str (String.ofList p))), m⟩ := rfl

theorem callBuiltin_tostring (items : List Value) (t : String) (m : Machine) :
    callBuiltin "tostring" (.array items) [.str t] m
      = ⟨.ok (.str (t.intercalate (items.map m.heap.text))), m⟩ := rfl

/-- Copies of a text, divided by the text, are their number. -/
theorem copies_counted {t : String} (ht : t ≠ "") {n : Int64} (h : 0 ≤ n)
    (hbound : t.utf8ByteSize * n.toInt ≤ maxBuiltLength) :
    (Operator.binary .mul (.str t) (.int n) >>= (Operator.binary .div · (.str t)))
      = .ok (.int n) := by
  obtain ⟨row, hrow, hcopies⟩ := Operator.timesText_of_le h hbound
  have hmul : Operator.binary .mul (.str t) (.int n) = .ok (.str row) := hrow
  have hdiv : Operator.binary .div (.str row) (.str t) =
      .ok (.ofSize (Text.count row.toList t.toList)) := rfl
  rw [hmul]
  refine hdiv.trans ?_
  rw [hcopies, Text.count_copies (mt String.toList_eq_nil_iff.1 ht), Value.ofSize,
    Operator.clampSize_toNat h]

theorem split_joined (s t : String) (m : Machine) :
    (do
      let parts ← callBuiltin "split" (.str s) [.str t]
      callBuiltin "tostring" parts [.str t]) m = ⟨.ok (.str s), m⟩ := by
  have hjoined : t.intercalate ((Text.split s.toList t.toList).map String.ofList) = s := by
    apply String.toList_inj.1
    rw [String.toList_intercalate, List.map_map]
    simpa [Function.comp_def] using Text.intercalate_split s.toList t.toList
  rw [Exec.bind_apply, callBuiltin_split]
  dsimp only
  rw [callBuiltin_tostring, List.map_map]
  exact congrArg (fun text => Outcome.mk (.ok (Value.str text)) m) hjoined

/-- **Three searches agree.** Let `t` be a text that is not empty. Then `s - t` is the one text that
does not end in `t` and becomes `s` by adding copies of `t`. Dividing `s` by `t` gives the largest
number of occurrences of which no two overlap, and for copies of `t` their number. Splitting `s` at
`t` gives one part more than that, and no part contains `t`. What has been split at any text, empty
or not, is put together again by that text. -/
theorem searches_agree (s t : String) :
    (t ≠ "" →
      (∃ r : String, Operator.binary .sub (.str s) (.str t) = .ok (.str r) ∧
        ∀ r' : String, Text.Stripped s.toList t.toList r'.toList ↔ r' = r) ∧
      (∃ k, Operator.binary .div (.str s) (.str t) = .ok (.ofSize k) ∧
        IsGreatest {n | ∃ starts, Text.Apart s.toList t.toList starts ∧ starts.length = n} k ∧
        ∃ parts : List String, parts.length = k + 1 ∧ (∀ p ∈ parts, ¬t.toList <:+: p.toList) ∧
          ∀ m, callBuiltin "split" (.str s) [.str t] m = ⟨.ok (.array (parts.map .str)), m⟩) ∧
      ∀ n : Int64, 0 ≤ n → t.utf8ByteSize * n.toInt ≤ maxBuiltLength →
        (Operator.binary .mul (.str t) (.int n) >>= (Operator.binary .div · (.str t)))
          = .ok (.int n)) ∧
    ∀ m, (do
      let parts ← callBuiltin "split" (.str s) [.str t]
      callBuiltin "tostring" parts [.str t]) m = ⟨.ok (.str s), m⟩ := by
  refine ⟨fun ht => ?_, split_joined s t⟩
  have hne : t.toList ≠ [] := mt String.toList_eq_nil_iff.1 ht
  refine ⟨?minus, ?divided, fun n => copies_counted ht⟩
  case minus =>
    refine ⟨String.ofList (Text.dropCopiesEnd s.toList t.toList), rfl, fun r' => ?_⟩
    rw [Text.stripped_iff hne, ← String.toList_inj, String.toList_ofList]
  -- the parts of the split are the witness for both numbers
  case divided =>
    refine ⟨Text.count s.toList t.toList, rfl, Text.isGreatest_count hne _,
      (Text.split s.toList t.toList).map String.ofList, ?_, ?_, fun m => ?_⟩
    · rw [List.length_map, Text.length_split hne]
    · intro p hp
      obtain ⟨q, hq, rfl⟩ := List.mem_map.1 hp
      rw [String.toList_ofList]
      exact Text.not_infix_of_mem_split hne _ q hq
    · rw [callBuiltin_split, List.map_map]
      rfl

theorem searches_agree_banana :
    Operator.binary .sub (.str "banana") (.str "na") = .ok (.str "ba") ∧
    (∃ parts : List String, parts.length = 3 ∧ (∀ p ∈ parts, ¬['n', 'a'] <:+: p.toList) ∧
      ∀ m, callBuiltin "split" (.str "banana") [.str "na"] m
        = ⟨.ok (.array (parts.map .str)), m⟩) ∧
    (Operator.binary .mul (.str "na") (.int 2) >>= (Operator.binary .div · (.str "na")))
      = .ok (.int 2) := by
  obtain ⟨⟨r, hminus, hr⟩, ⟨k, -, hk, parts, hlength, hnone, hsplit⟩, hcopies⟩ :=
    (searches_agree "banana" "na").1 (by decide)
  have hba : "ba" = r := (hr "ba").1 ⟨⟨2, by decide⟩, by decide⟩
  have hcount : Text.count "banana".toList "na".toList = 2 := by cbv
  obtain rfl : k = 2 := (hk.unique (Text.isGreatest_count (by decide) _)).trans hcount
  exact ⟨hba ▸ hminus, ⟨parts, hlength, hnone, hsplit⟩, hcopies 2 (by decide) (by decide)⟩

end BoxScript
