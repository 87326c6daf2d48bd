import BoxScript.Extension
import BoxScript.Proofs.Values

/-!
# Paths through nested arrays

An array inside of an array is reached by one index after the other, so a row of indices is a path.
The extension that replaces an item takes a path too, and goes as far as the index operator does:
it has a result exactly if there is something at the path to be replaced, and fails otherwise.

`Value.Replaced` says what the result is, without any computation. The array at every step of the
path is there before and after, of the same length, and the rest of the path is replaced in it.
Whatever is read on a path that turns off somewhere is read as before, down to the error.
-/

namespace BoxScript

/-- The integer is a position in an array with these items. -/
def IsPosition (i : Int64) (items : List Value) : Prop :=
  0 ≤ i.toInt ∧ i.toInt < items.length

instance (i : Int64) (items : List Value) : Decidable (IsPosition i items) :=
  inferInstanceAs (Decidable (_ ∧ _))

namespace Value

/-- What is read at the end of a path, by one index after the other. -/
def along (path : List Int64) (v : Value) : Except RuntimeError Value :=
  path.foldlM (fun v i => Operator.index v (.int i)) v

/-- Each index of a path is a position in an array that the indices before it lead to. -/
def Leads (path : List Int64) (v : Value) : Prop :=
  ∀ before i after, path = before ++ i :: after →
    ∃ items, v.along before = .ok (.array items) ∧ IsPosition i items

/-- The second value is the first one with `v` at the end of a path. -/
inductive Replaced (v : Value) : List Int64 → Value → Value → Prop
  | here (old : Value) : Replaced v [] old v
  | inside {i : Int64} {path : List Int64} {items : List Value} {old new : Value}
    (hi : IsPosition i items) (hold : items[i.toInt.toNat]? = some old)
    (h : Replaced v path old new) :
    Replaced v (i :: path) (.array items) (.array (items.set i.toInt.toNat new))

/-! ## Reading -/

section Reading

variable {i j : Int64} {items : List Value} {path : List Int64} {v w : Value}

theorem along_nil (v : Value) : v.along [] = .ok v := rfl

theorem along_cons (i : Int64) (path : List Int64) (v : Value) :
    v.along (i :: path) = Operator.index v (.int i) >>= along path := rfl

theorem isPosition_iff : IsPosition i items ↔ 0 ≤ i.toInt ∧ i.toInt.toNat < items.length := by
  unfold IsPosition
  omega

theorem exists_item (hi : IsPosition i items) : ∃ w, items[i.toInt.toNat]? = some w :=
  ⟨_, List.getElem?_eq_getElem (isPosition_iff.1 hi).2⟩

theorem index_of_isPosition (hi : IsPosition i items) (h : items[i.toInt.toNat]? = some w) :
    Operator.index (.array items) (.int i) = .ok w := by
  have hnonneg : ¬i < 0 := Int64.not_lt.2 (Int64.le_iff_toInt_le.2 hi.1)
  rw [Operator.index, if_neg hnonneg, h]

theorem index_of_not_isPosition (hi : ¬IsPosition i items) :
    Operator.index (.array items) (.int i) = .error (.indexOutOfRange i items.length) := by
  rw [Operator.index]
  split
  case isTrue => rfl
  case isFalse hnonneg =>
    have hbeyond : items[i.toInt.toNat]? = none := by
      rw [List.getElem?_eq_none_iff]
      by_contra hlt
      exact hi (isPosition_iff.2 ⟨Int64.le_iff_toInt_le.1 (Int64.not_lt.1 hnonneg), by omega⟩)
    rw [hbeyond]

/-- Replacing an item leaves the positions as they were. -/
theorem isPosition_set (n : Nat) (w : Value) :
    IsPosition i (items.set n w) ↔ IsPosition i items := by
  rw [IsPosition, List.length_set, IsPosition]

theorem index_set_self (hi : IsPosition i items) (w : Value) :
    Operator.index (.array (items.set i.toInt.toNat w)) (.int i) = .ok w :=
  index_of_isPosition ((isPosition_set _ w).2 hi)
    (List.getElem?_set_self (isPosition_iff.1 hi).2)

/-- Another item is read as before, also where there is none. -/
theorem index_set_of_ne (hi : IsPosition i items) (hne : i ≠ j) (w : Value) :
    Operator.index (.array (items.set i.toInt.toNat w)) (.int j)
      = Operator.index (.array items) (.int j) := by
  have hset : IsPosition j (items.set i.toInt.toNat w) ↔ IsPosition j items :=
    isPosition_set i.toInt.toNat w
  by_cases hj : IsPosition j items
  · obtain ⟨u, hu⟩ := exists_item hj
    have hplace : i.toInt.toNat ≠ j.toInt.toNat := by
      have hints : i.toInt ≠ j.toInt := fun h => hne (Int64.toInt_inj.1 h)
      have := hi.1
      have := hj.1
      omega
    rw [index_of_isPosition hj hu, index_of_isPosition (hset.2 hj)]
    rwa [List.getElem?_set_ne hplace]
  · rw [index_of_not_isPosition hj, index_of_not_isPosition (mt hset.1 hj), List.length_set]

/-- A path leads somewhere if its first index does and the others do from there on. -/
theorem leads_cons : v.Leads (i :: path) ↔
    ∃ items w, v = .array items ∧ IsPosition i items ∧ items[i.toInt.toNat]? = some w ∧
      w.Leads path := by
  constructor
  · intro h
    obtain ⟨items, hitems, hi⟩ := h [] i path rfl
    obtain ⟨w, hw⟩ := exists_item hi
    rw [along_nil] at hitems
    cases hitems
    refine ⟨items, w, rfl, hi, hw, fun before j after hpath => ?_⟩
    obtain ⟨inner, hinner, hj⟩ := h (i :: before) j after (by rw [hpath, List.cons_append])
    rw [along_cons, index_of_isPosition hi hw] at hinner
    exact ⟨inner, hinner, hj⟩
  · rintro ⟨items, w, rfl, hi, hw, hleads⟩ before j after hpath
    cases before with
    | nil =>
      cases hpath
      exact ⟨items, rfl, hi⟩
    | cons i' before =>
      cases hpath
      rw [along_cons, index_of_isPosition hi hw]
      exact hleads before j after rfl

end Reading

/-! ## Replacing -/

section Replacing

variable {v old new : Value} {path other : List Int64}

/-- At the end of the path is the new value. -/
theorem Replaced.along_eq (h : Replaced v path old new) : new.along path = .ok v := by
  induction h with
  | here => rfl
  | inside hi _ _ ih =>
    rw [along_cons, index_set_self hi]
    exact ih

/-- Before the end of the path are arrays, which keep their lengths. -/
theorem Replaced.arrays (h : Replaced v path old new) (hpath : path ≠ []) :
    ∃ items items', old = .array items ∧ new = .array items' ∧ items'.length = items.length := by
  cases h with
  | here => exact absurd rfl hpath
  | inside => exact ⟨_, _, rfl, rfl, List.length_set⟩

/-- A path that turns off is read as before. -/
theorem Replaced.along_of_apart (h : Replaced v path old new) (hbehind : ¬path <+: other)
    (hbefore : ¬other <+: path) : new.along other = old.along other := by
  induction h generalizing other with
  | here => exact absurd List.nil_prefix hbehind
  | @inside i path items old new hi hold _ ih =>
    cases other with
    | nil => exact absurd List.nil_prefix hbefore
    | cons j other =>
      rw [along_cons, along_cons]
      by_cases hne : i = j
      · subst hne
        rw [index_of_isPosition hi hold, index_set_self hi]
        refine ih (fun h => hbehind ?_) (fun h => hbefore ?_)
        · exact List.cons_prefix_cons.2 ⟨rfl, h⟩
        · exact List.cons_prefix_cons.2 ⟨rfl, h⟩
      · rw [index_set_of_ne hi hne]

/-- What stands at a part of the path has the value at the rest of it. -/
theorem Replaced.behind {before after : List Int64} (h : Replaced v (before ++ after) old new) :
    ∃ held held', old.along before = .ok held ∧ new.along before = .ok held' ∧
      Replaced v after held held' := by
  induction before generalizing old new with
  | nil => exact ⟨old, new, rfl, rfl, h⟩
  | cons i before ih =>
    rw [List.cons_append] at h
    cases h with
    | inside hi hold h =>
      rw [along_cons, along_cons, index_of_isPosition hi hold, index_set_self hi]
      exact ih h

/-- A path can be replaced at if and only if it leads somewhere. -/
theorem exists_replaced_iff : (∃ new, Replaced v path old new) ↔ old.Leads path := by
  induction path generalizing old with
  | nil => exact ⟨fun _ before i after h => by simp at h, fun _ => ⟨v, .here old⟩⟩
  | cons i path ih =>
    rw [leads_cons]
    constructor
    · rintro ⟨_, ⟨⟩⟩
      case inside items w new hi hold h => exact ⟨items, w, rfl, hi, hold, ih.1 ⟨new, h⟩⟩
    · rintro ⟨items, w, rfl, hi, hold, hleads⟩
      obtain ⟨new, h⟩ := ih.2 hleads
      exact ⟨_, .inside hi hold h⟩

end Replacing
end Value

namespace Builtin

variable {v : Value} {path : List Int64} {items : List Value}

theorem position_eq (name : String) (i : Int64) (items : List Value) :
    position name i items.length items.length =
      if IsPosition i items then .ok i.toInt.toNat
      else .error (.extensionIndex name i items.length) := by
  have hpos : IsPosition i items ↔ ¬(i < 0 ∨ items.length ≤ i.toInt.toNat) := by
    rw [Value.isPosition_iff, not_or, Int64.not_lt, Int64.le_iff_toInt_le, Nat.not_le]
    rfl
  rw [position]
  split
  case isTrue h => rw [if_neg fun hi => hpos.1 hi h]
  case isFalse h => rw [if_pos (hpos.2 h)]

/-! The extension at the first index of a path. -/

section First

variable {i : Int64}

theorem replaceNested_beyond (v : Value) (path : List Int64) (hi : ¬IsPosition i items) :
    replaceNested v (i :: path) items = .error (.extensionIndex "replaceat" i items.length) := by
  cases path with
  | nil =>
    rw [replaceNested, position_eq, if_neg hi]
    rfl
  | cons j path =>
    rw [replaceNested, position_eq, if_neg hi]
    · rfl
    · exact List.cons_ne_nil j path

theorem replaceNested_last (v : Value) (hi : IsPosition i items) :
    replaceNested v [i] items = .ok (items.set i.toInt.toNat v) := by
  rw [replaceNested, position_eq, if_pos hi]
  rfl

theorem replaceNested_inside (v : Value) (hpath : path ≠ []) (hi : IsPosition i items)
    {inner : List Value} (hinner : items[i.toInt.toNat]? = some (.array inner)) :
    replaceNested v (i :: path) items = (replaceNested v path inner >>= fun inner =>
      .ok (items.set i.toInt.toNat (.array inner))) := by
  rw [replaceNested, position_eq, if_pos hi]
  · simp only [bind, Except.bind, hinner]
    rfl
  · exact hpath

/-- An item that is no array has nothing inside. -/
theorem replaceNested_flat (v : Value) (hpath : path ≠ []) (hi : IsPosition i items)
    (hflat : ∀ inner, items[i.toInt.toNat]? ≠ some (.array inner)) :
    replaceNested v (i :: path) items
      = .error (.replaceInside i (items[i.toInt.toNat]?.getD .void).kind) := by
  rw [replaceNested, position_eq, if_pos hi]
  · -- by `hflat` the branch for an array inside is not taken
    simp only [bind, Except.bind]
  · exact hpath

end First

/-- A path into an array has a result, or it fails as an argument that does not fit. -/
theorem replaceNested_cases (v : Value) (hpath : path ≠ []) (items : List Value) :
    (∃ changed, replaceNested v path items = .ok changed ∧
      Value.Replaced v path (.array items) (.array changed)) ∨
    ((∀ new, ¬Value.Replaced v path (.array items) new) ∧
      ∃ e, replaceNested v path items = .error e ∧ e.kind = .argumentError) := by
  induction path generalizing items with
  | nil => exact absurd rfl hpath
  | cons i path ih =>
    -- the index is a position or not; if so, it is the last one, or leads to an array, or to no
    -- array
    by_cases hi : IsPosition i items
    · by_cases hlast : path = []
      · subst hlast
        obtain ⟨old, hold⟩ := Value.exists_item hi
        exact .inl ⟨_, replaceNested_last v hi, .inside hi hold (.here old)⟩
      · by_cases hinner : ∃ inner, items[i.toInt.toNat]? = some (.array inner)
        · obtain ⟨inner, hinner⟩ := hinner
          rw [replaceNested_inside v hlast hi hinner]
          rcases ih hlast inner with ⟨changed, hchanged, h⟩ | ⟨hnone, e, he, hkind⟩
          · rw [hchanged]
            exact .inl ⟨_, rfl, .inside hi hinner h⟩
          · rw [he]
            refine .inr ⟨fun new h => ?_, e, rfl, hkind⟩
            cases h with
            | inside _ hold h =>
              rw [hinner] at hold
              cases hold
              exact hnone _ h
        · rw [replaceNested_flat v hlast hi fun inner h => hinner ⟨inner, h⟩]
          refine .inr ⟨fun new h => ?_, _, rfl, rfl⟩
          cases h with
          | inside _ hold h =>
            obtain ⟨inner, -, rfl, -⟩ := h.arrays hlast
            exact hinner ⟨inner, hold⟩
    · rw [replaceNested_beyond v path hi]
      refine .inr ⟨fun new h => ?_, _, rfl, rfl⟩
      cases h with
      | inside hi' => exact hi hi'

end Builtin

/-! ## The extension -/

/-- The extension is the replacing on the path before its last argument. -/
theorem callBuiltin_replaceAt (items : List Value) {path : List Int64} (hpath : path ≠ [])
    (v : Value) (m : Machine) :
    callBuiltin "replaceat" (.array items) (path.map .int ++ [v]) m =
      match Builtin.replaceNested v path items with
      | .ok changed => ⟨.ok (.array changed), m⟩
      | .error e => ⟨.error e, m⟩ := by
  have hcount : ¬(path.map Value.int ++ [v]).length < 2 := by
    have := List.length_pos_iff.2 hpath
    rw [List.length_append, List.length_map, List.length_singleton]
    omega
  have hints : (path.map Value.int).mapM (Builtin.intArg "replaceat") = .ok path := by
    clear hpath hcount
    induction path with
    | nil => rfl
    | cons i path ih =>
      rw [List.map_cons, List.mapM_cons, ih]
      rfl
  have hextension : Builtin.ofArray m.heap.text "replaceat" items (path.map .int ++ [v]) =
      Builtin.replaceNested v path items >>= fun changed => .ok (some (.array changed)) := by
    simp only [Builtin.ofArray]
    rw [if_neg hcount, List.dropLast_concat, hints, List.getLast?_concat]
    rfl
  show (Exec.ofExcept (Builtin.ofArray m.heap.text "replaceat" items _) >>= _) m = _
  rw [hextension]
  cases Builtin.replaceNested v path items <;> rfl

/-- What is read off an array with a value replaced at a path, compared to what is read off the
array: the value at the path, the same on every path that turns off, and before the end of the path
an array of the same length. -/
structure Value.ReadsReplaced (v : Value) (path : List Int64) (old new : Value) : Prop where
  here : new.along path = .ok v
  apart : ∀ other, ¬path <+: other → ¬other <+: path → new.along other = old.along other
  lengths : ∀ before after, path = before ++ after → after ≠ [] → ∃ items items',
    old.along before = .ok (.array items) ∧ new.along before = .ok (.array items') ∧
      items'.length = items.length

/-- Along the path there is the value, and everywhere else there is what there was. -/
theorem Value.Replaced.reads {v old new : Value} {path : List Int64}
    (h : Replaced v path old new) : ReadsReplaced v path old new where
  here := h.along_eq
  apart _ := h.along_of_apart
  lengths before after hpath hafter := by
    subst hpath
    obtain ⟨held, held', hheld, hheld', h⟩ := h.behind
    obtain ⟨items, items', rfl, rfl, hlength⟩ := h.arrays hafter
    exact ⟨items, items', hheld, hheld', hlength⟩

/-- **Replacing at a path.** The extension has a result if and only if each index of the path is a
position in an array that the indices before it lead to, and otherwise it fails for its arguments.
Reading the path on the result gives the new value, and a path that neither goes on from there nor
is a part of it reads as it did, whether to a value or to an error. The arrays on the way keep their
lengths. -/
theorem path_replaced (items : List Value) {path : List Int64} (hpath : path ≠ []) (v : Value)
    (m : Machine) :
    ((∃ changed, callBuiltin "replaceat" (.array items) (path.map .int ++ [v]) m
        = ⟨.ok changed, m⟩) ↔ (Value.array items).Leads path) ∧
    (∀ changed m', callBuiltin "replaceat" (.array items) (path.map .int ++ [v]) m
        = ⟨.ok changed, m'⟩ → m' = m ∧ Value.ReadsReplaced v path (.array items) changed) ∧
    (¬(Value.array items).Leads path → ∃ e, e.kind = .argumentError ∧
      callBuiltin "replaceat" (.array items) (path.map .int ++ [v]) m = ⟨.error e, m⟩) := by
  rw [callBuiltin_replaceAt items hpath, ← Value.exists_replaced_iff (v := v)]
  rcases Builtin.replaceNested_cases v hpath items with
    ⟨changed, hchanged, h⟩ | ⟨hnone, e, he, hkind⟩
  · rw [hchanged]
    refine ⟨⟨fun _ => ⟨_, h⟩, fun _ => ⟨_, rfl⟩⟩, ?_, fun hnot => absurd ⟨_, h⟩ hnot⟩
    rintro _ _ ⟨⟩
    exact ⟨rfl, h.reads⟩
  · rw [he]
    refine ⟨⟨?_, fun ⟨new, h⟩ => absurd h (hnone new)⟩, ?_, fun _ => ⟨e, hkind, rfl⟩⟩
    · rintro ⟨_, ⟨⟩⟩
    · rintro _ _ ⟨⟩

namespace Value

/-- The array `[[1, 2], 3]`. -/
def pairInside : List Value := [.array [.int 1, .int 2], .int 3]

/-- The array `[[1, 9], 3]`. -/
def pairReplaced : List Value := [.array [.int 1, .int 9], .int 3]

end Value

theorem path_replaced_inside :
    (Value.array Value.pairInside).Leads [0, 1] ∧
      Value.ReadsReplaced (.int 9) [0, 1] (.array Value.pairInside)
        (.array Value.pairReplaced) := by
  have hpath : ([0, 1] : List Int64) ≠ [] := List.cons_ne_nil _ _
  obtain ⟨hleads, hreads, -⟩ := path_replaced Value.pairInside hpath (.int 9)
    (.new .empty (.ofBytes []))
  exact ⟨hleads.1 ⟨.array Value.pairReplaced, rfl⟩, (hreads (.array Value.pairReplaced) _ rfl).2⟩

/-- What holds the value that is replaced does not read as before, though the path to it does not
begin with the whole path. -/
theorem holder_differs :
    callBuiltin "replaceat" (.array Value.pairInside) [.int 0, .int 1, .int 9]
        (.new .empty (.ofBytes []))
      = ⟨.ok (.array Value.pairReplaced), .new .empty (.ofBytes [])⟩ ∧
    ¬∀ other : List Int64, ¬[0, 1] <+: other →
      (Value.array Value.pairReplaced).along other
        = (Value.array Value.pairInside).along other := by
  refine ⟨rfl, fun h => ?_⟩
  have hholder := h [0] (by decide)
  have hreplaced : (Value.array Value.pairReplaced).along [0] = .ok (.array [.int 1, .int 9]) := rfl
  have hbefore : (Value.array Value.pairInside).along [0] = .ok (.array [.int 1, .int 2]) := rfl
  rw [hreplaced, hbefore] at hholder
  injection hholder with hholder
  injection hholder with hholder
  simp at hholder

end BoxScript
