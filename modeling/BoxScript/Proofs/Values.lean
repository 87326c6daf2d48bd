import BoxScript.Extension.Builtin
import BoxScript.Operator
import Mathlib.Data.List.InsertIdx

/-!
# What values refer to

A value refers to an instance when it is that instance, or an array that has it somewhere inside.
Operators and built-in extensions build their results from the values that they are given, so they
refer to no other instances than those do.
-/

namespace BoxScript

variable {R : Handle → Prop}

namespace Value

/-- The value is the instance, or an array that has it somewhere inside. -/
inductive Holds : Value → Handle → Prop
  | object (h : Handle) : Holds (.object h) h
  | item {items : List Value} {v : Value} {h : Handle} (hv : v ∈ items) (hh : Holds v h) :
      Holds (.array items) h

/-- All instances that the value refers to are in `R`. -/
def Within (R : Handle → Prop) (v : Value) : Prop := ∀ h, v.Holds h → R h

@[simp] theorem within_int (n : Int64) : (int n).Within R := nofun

@[simp] theorem within_str (s : String) : (str s).Within R := nofun

@[simp] theorem within_void : void.Within R := nofun

@[simp] theorem within_ofBool (b : Bool) : (ofBool b).Within R := within_int _

@[simp] theorem within_ofSize (n : Nat) : (ofSize n).Within R := within_int _

@[simp] theorem within_ofInputLine (line : String) : (ofInputLine line).Within R := by
  unfold ofInputLine
  split
  · exact within_int _
  · exact within_str _

/-- An object is within a set of instances if it is one of them. -/
@[simp] theorem within_object {h : Handle} : (object h).Within R ↔ R h := by
  refine ⟨fun hR => hR h (.object h), ?_⟩
  rintro hR _ ⟨⟩
  exact hR

@[simp] theorem within_array {items : List Value} :
    (array items).Within R ↔ ∀ v ∈ items, v.Within R := by
  refine ⟨fun hR v hv h hh => hR h (.item hv hh), ?_⟩
  rintro hR h (_ | ⟨hv, hh⟩)
  exact hR _ hv h hh

/-- Items of two arrays in a row are within it if both arrays are. -/
theorem Within.append {xs ys : List Value} (hx : (array xs).Within R) (hy : (array ys).Within R) :
    (array (xs ++ ys)).Within R :=
  within_array.2 (List.forall_mem_append.2 ⟨within_array.1 hx, within_array.1 hy⟩)

theorem within_singleton {v : Value} (h : v.Within R) : (array [v]).Within R := by simpa using h

theorem within_of_all (hR : ∀ h, R h) (v : Value) : v.Within R := fun h _ => hR h

end Value

/-- A result after a check is there only if the check is passed. -/
theorem ok_of_check {α β : Type} {x : Except RuntimeError α} {f : α → Except RuntimeError β}
    {b : β} (h : (x >>= f) = .ok b) : ∃ a, x = .ok a ∧ f a = .ok b := by
  cases x with
  | error e => cases h
  | ok a => exact ⟨a, rfl, h⟩

/-! ## Operators -/

namespace Operator

variable {a b v : Value} {items : List Value}

theorem within_exact {a b : Int64} {op : BinOp} {n : Int} (h : exact a op b n = .ok v) :
    v.Within R := by
  unfold exact at h
  split at h
  · cases h
    exact Value.within_int _
  · cases h

theorem within_ints {op : BinOp} {a b : Int64} (h : ints op a b = .ok v) : v.Within R := by
  cases op
  case div | mod | pow =>
    simp only [ints] at h
    grind [within_exact, Value.within_int]
  case add | sub | mul => exact within_exact h
  all_goals
    cases h
    exact Value.within_ofBool _

theorem within_timesItems {n : Int64} (h : timesItems items n = .ok v)
    (hitems : ∀ w ∈ items, w.Within R) : v.Within R := by
  obtain ⟨k, -, hv⟩ := ok_of_check h
  cases hv
  rw [Value.within_array]
  intro w hw
  obtain ⟨copy, hcopy, hw⟩ := List.mem_flatten.1 hw
  rw [List.eq_of_mem_replicate hcopy] at hw
  exact hitems w hw

theorem within_chunksFrom {cut : List Value} {size parts : Nat} (hcut : ∀ w ∈ cut, w.Within R)
    (hitems : ∀ w ∈ items, w.Within R) : ∀ w ∈ chunksFrom cut size parts items, w.Within R := by
  induction parts generalizing cut items with
  | zero => exact fun w hw => hcut w (List.mem_reverse.1 hw)
  | succ parts ih =>
    refine ih (List.forall_mem_cons.2 ⟨?_, hcut⟩) fun w hw => hitems w (List.mem_of_mem_drop hw)
    rw [Value.within_array]
    exact fun w hw => hitems w (List.mem_of_mem_take hw)

theorem within_divideItems {n : Int64} (h : divideItems items n = .ok v)
    (hitems : ∀ w ∈ items, w.Within R) : v.Within R := by
  unfold divideItems at h
  split at h
  · cases h
  · obtain ⟨-, -, hv⟩ := ok_of_check h
    cases hv
    rw [Value.within_array]
    exact within_chunksFrom (fun w hw => absurd hw List.not_mem_nil) hitems

theorem within_timesEach {counts : List Value} (h : timesEach items counts = .ok v)
    (hitems : ∀ w ∈ items, w.Within R) : v.Within R := by
  obtain ⟨counts, -, h⟩ := ok_of_check h
  split at h
  · cases h
  · obtain ⟨-, -, hv⟩ := ok_of_check h
    cases hv
    rw [Value.within_array]
    intro w hw
    obtain ⟨i, hi, rfl⟩ := List.getElem_of_mem hw
    rw [List.getElem_zipWith, Value.within_array]
    intro u hu
    rw [List.eq_of_mem_replicate hu]
    exact hitems _ (List.getElem_mem _)

theorem within_timesText {s : String} {n : Int64} (h : timesText s n = .ok v) : v.Within R := by
  obtain ⟨k, -, hv⟩ := ok_of_check h
  cases hv
  exact Value.within_str _

theorem within_divideText {s : String} {n : Int64} (h : divideText s n = .ok v) :
    v.Within R := by
  unfold divideText at h
  dsimp only at h
  split at h
  · cases h
  · split at h
    · cases h
    · cases h
      exact Value.within_str _

/-- What is shortened is within it, whatever is kept. -/
theorem within_shortened {n : Int64} {size : Nat} {f : Nat → Value}
    (hf : ∀ keep, (f keep).Within R)
    (h : (shortened size n >>= fun keep => pure (f keep)) = .ok v) : v.Within R := by
  obtain ⟨keep, -, hv⟩ := ok_of_check h
  cases hv
  exact hf keep

/-- What an operator gives refers only to what its operands refer to. -/
theorem within_binary {op : BinOp} (h : binary op a b = .ok v) (ha : a.Within R)
    (hb : b.Within R) : v.Within R := by
  unfold binary at h
  dsimp only at h
  split at h
  case h_3 => exact within_ints h
  -- of texts and numbers nothing but texts and numbers is made
  case h_4 | h_5 | h_11 =>
    split at h
    all_goals first
      | exact within_timesText h
      | exact within_divideText h
      | exact within_shortened (fun _ => Value.within_str _) h
      | cases h
    all_goals simp
  case h_6 items n =>
    -- an array and an integer: items are added, dropped, repeated or cut into chunks
    have hitems := Value.within_array.1 ha
    split at h
    case h_1 =>
      cases h
      exact ha.append (Value.within_singleton hb)
    case h_2 =>
      refine within_shortened (fun keep => Value.within_array.2 fun w hw => ?_) h
      exact hitems w (List.mem_of_mem_take hw)
    case h_3 => exact within_timesItems h hitems
    case h_4 => exact within_divideItems h hitems
    all_goals cases h
    all_goals simp
  case h_7 | h_8 =>
    split at h
    · cases h
      exact (Value.within_singleton ha).append hb
    · cases h
  case h_9 =>
    split at h
    · cases h
      exact ha.append (Value.within_singleton hb)
    · cases h
  case h_10 xs ys =>
    have hxs := Value.within_array.1 ha
    split at h
    case h_1 =>
      cases h
      exact ha.append hb
    case h_2 =>
      cases h
      rw [Value.within_array]
      split
      · exact fun w hw => hxs w (List.mem_of_mem_take hw)
      · exact hxs
    case h_3 => exact within_timesEach h hxs
    all_goals cases h
    all_goals simp
  all_goals cases h

theorem within_negate (h : negate a = .ok v) : v.Within R := by
  unfold negate at h
  split at h
  · split at h
    · cases h
      exact Value.within_int _
    · cases h
  · cases h
  · cases h

theorem within_index (h : index a b = .ok v) (ha : a.Within R) : v.Within R := by
  unfold index at h
  split at h
  · split at h
    · cases h
    · split at h
      · next hitem =>
        cases h
        exact Value.within_array.1 ha v (List.mem_of_getElem? hitem)
      · cases h
  · cases h
  · cases h

end Operator

/-! ## Built-in extensions -/

namespace Builtin

theorem within_set {items : List Value} {u : Value} (hitems : ∀ w ∈ items, w.Within R)
    (hu : u.Within R) (n : Nat) : ∀ w ∈ items.set n u, w.Within R := by
  intro w hw
  rcases List.mem_or_eq_of_mem_set hw with hw | rfl
  · exact hitems w hw
  · exact hu

theorem within_replaceNested {value : Value} (hvalue : value.Within R) {path : List Int64}
    {items items' : List Value} (h : replaceNested value path items = .ok items')
    (hitems : ∀ w ∈ items, w.Within R) : ∀ w ∈ items', w.Within R := by
  induction path generalizing items items' with
  | nil => cases h
  | cons i rest ih =>
    cases rest with
    | nil =>
      obtain ⟨n, -, h⟩ := ok_of_check h
      cases h
      exact within_set hitems hvalue n
    | cons j rest =>
      obtain ⟨n, -, h⟩ := ok_of_check h
      split at h
      · next inner hinner =>
        obtain ⟨inner', hdeeper, h⟩ := ok_of_check h
        cases h
        have hinside := Value.within_array.1 (hitems _ (List.mem_of_getElem? hinner))
        exact within_set hitems (Value.within_array.2 (ih hdeeper hinside)) n
      · cases h

/-- What an extension of an array gives refers only to what the array and the arguments refer
to. -/
theorem within_ofArray {text : Value → String} {name : String} {items args : List Value}
    {v : Value} (h : ofArray text name items args = .ok (some v))
    (hitems : ∀ w ∈ items, w.Within R) (hargs : ∀ w ∈ args, w.Within R) : v.Within R := by
  have harray := Value.within_array.2 hitems
  unfold ofArray at h
  split at h
  -- length, reverse, tostring with and without a separator
  case h_1 | h_4 =>
    obtain ⟨-, -, h⟩ := ok_of_check h
    cases h
    simp
  case h_2 =>
    obtain ⟨-, -, h⟩ := ok_of_check h
    cases h
    simpa using hitems
  case h_3 =>
    obtain ⟨separator, -, h⟩ := ok_of_check h
    cases h
    exact Value.within_str _
  -- removeat
  case h_5 =>
    split at h
    · cases h
    · obtain ⟨i, -, h⟩ := ok_of_check h
      obtain ⟨n, -, h⟩ := ok_of_check h
      cases h
      exact Value.within_array.2 fun w hw => hitems w (List.mem_of_mem_eraseIdx hw)
  -- append, addat, prepend
  case h_7 item =>
    cases h
    exact harray.append (Value.within_singleton (hargs item List.mem_cons_self))
  case h_9 position item =>
    obtain ⟨i, -, h⟩ := ok_of_check h
    obtain ⟨n, -, h⟩ := ok_of_check h
    cases h
    refine Value.within_array.2 fun w hw => ?_
    rcases List.eq_or_mem_of_mem_insertIdx hw with rfl | hw
    · exact hargs w (by simp)
    · exact hitems w hw
  case h_11 item =>
    cases h
    exact (Value.within_singleton (hargs item List.mem_cons_self)).append harray
  -- replaceat
  case h_13 =>
    split at h
    · cases h
    · obtain ⟨path, -, h⟩ := ok_of_check h
      obtain ⟨items', hreplaced, h⟩ := ok_of_check h
      cases h
      refine Value.within_array.2 (within_replaceNested ?_ hreplaced hitems)
      cases hlast : args.getLast? with
      | none => exact Value.within_void
      | some w => exact hargs w (List.mem_of_getLast? hlast)
  case h_14 | h_15 =>
    cases h
    exact Value.within_ofBool _
  all_goals cases h

/-- Texts in an array hold no instances. -/
theorem within_arrayOfTexts (texts : List (List Char)) : (arrayOfTexts texts).Within R := by
  refine Value.within_array.2 fun w hw => ?_
  obtain ⟨t, -, rfl⟩ := List.mem_map.1 hw
  exact Value.within_str _

/-- Extensions of strings and integers give nothing that refers to an instance. -/
theorem within_ofString {name s : String} {args : List Value} {v : Value}
    (h : ofString name s args = .ok (some v)) : v.Within R := by
  unfold ofString at h
  split at h
  case h_6 =>
    obtain ⟨-, -, h⟩ := ok_of_check h
    split at h
    · cases h
      exact Value.within_int _
    · cases h
  case h_10 =>
    obtain ⟨i, -, h⟩ := ok_of_check h
    obtain ⟨r, -, h⟩ := ok_of_check h
    obtain ⟨n, -, h⟩ := ok_of_check h
    cases h
    exact Value.within_str _
  case h_11 | h_12 => cases h
  all_goals
    obtain ⟨checked, -, h⟩ := ok_of_check h
    cases h
    first | exact within_arrayOfTexts _ | simp

theorem within_ofInt {name : String} {n : Int64} {args : List Value} {v : Value}
    (h : ofInt name n args = .ok (some v)) : v.Within R := by
  unfold ofInt at h
  split at h
  · obtain ⟨-, -, h⟩ := ok_of_check h
    cases h
    exact Value.within_str _
  · cases h

end Builtin
end BoxScript
