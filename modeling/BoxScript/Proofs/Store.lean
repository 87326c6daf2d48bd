import BoxScript.Call
import Mathlib.Data.Nat.Find

/-!
# The laws of a store of variables

Each operation on a store is described by what it does to `get?`, or where the values do not matter
by what it does to the names that are bound at a level. A name that is set is bound at the level of
the code, unless the code found it at a lower one; closing drops what stands above a level and
nothing else; and absorbing another store adds its names and takes none away. A global variable
keeps its value through all of them, unless code sets it and no variable of an inner scope hides it.
-/

namespace BoxScript
namespace Scopes

/-! ## Values -/

/-- The variables of one of the inner scopes. -/
def innerAt (inner : List (Nat × Variables)) (level : Nat) : Variables :=
  match inner.find? (·.1 = level) with
  | some (_, vars) => vars
  | none => .empty

theorem innerAt_cons_self (l : Nat) (vars : Variables) (rest : List (Nat × Variables)) :
    innerAt ((l, vars) :: rest) l = vars := by
  simp [innerAt]

theorem innerAt_cons_of_ne {l level : Nat} (h : l ≠ level) (vars : Variables)
    (rest : List (Nat × Variables)) : innerAt ((l, vars) :: rest) level = innerAt rest level := by
  simp [innerAt, h]

/-- Below its highest scope a descending list has no scope of that level or a higher one. -/
theorem innerAt_of_lt {inner : List (Nat × Variables)} {level : Nat}
    (h : ∀ e ∈ inner, e.1 < level) : innerAt inner level = .empty := by
  have hnone : inner.find? (·.1 = level) = none := by
    rw [List.find?_eq_none]
    intro e he
    have hlt := h e he
    simp only [decide_eq_true_eq]
    omega
  simp only [innerAt, hnone]

theorem get?_zero (s : Scopes) (x : String) : s.get? 0 x = s.globals.get? x := rfl

/-- Above the global level a name is looked up in the inner scope of that level. -/
theorem get?_inner (s : Scopes) {level : Nat} (h : 0 < level) (x : String) :
    s.get? level x = (innerAt s.inner level).get? x := by
  have hne : level ≠ 0 := by omega
  simp only [get?, variablesAt, if_neg hne]
  rfl

theorem Descending.tail {e : Nat × Variables} {rest : List (Nat × Variables)}
    (h : Descending (e :: rest)) : Descending rest :=
  ⟨(List.pairwise_cons.1 h.1).2, fun e he => h.2 e (List.mem_cons_of_mem _ he)⟩

theorem Descending.head {e : Nat × Variables} {rest : List (Nat × Variables)}
    (h : Descending (e :: rest)) : ∀ e' ∈ rest, e'.1 < e.1 :=
  (List.pairwise_cons.1 h.1).1

/-- Binding a name changes that name at that level, and nothing else. -/
theorem get?_innerAt_bindInner {inner : List (Nat × Variables)} (h : Descending inner)
    (level : Nat) (name : String) (v : Value) (l : Nat) (x : String) :
    (innerAt (bindInner level name v inner) l).get? x
      = if l = level ∧ x = name then some v else (innerAt inner l).get? x := by
  have hfresh : ∀ rest, (∀ e ∈ rest, e.1 < level) →
      (innerAt ((level, Dict.empty.insert name v) :: rest) l).get? x
        = if l = level ∧ x = name then some v else (innerAt rest l).get? x := by
    intro rest hrest
    by_cases hl : l = level
    · subst hl
      rw [innerAt_cons_self, innerAt_of_lt hrest, Dict.get?_insert]
      simp
    · rw [innerAt_cons_of_ne (Ne.symm hl)]
      simp [hl]
  -- by the recursion of binding, which looks for the level from the top
  induction inner with
  | nil => exact hfresh [] (by simp)
  | cons e rest ih =>
    obtain ⟨m, vars⟩ := e
    have hhead := Descending.head h
    unfold bindInner
    by_cases hm : m = level
    · -- the scope is there
      subst hm
      rw [if_pos rfl]
      by_cases hl : l = m
      · subst hl
        rw [innerAt_cons_self, innerAt_cons_self, Dict.get?_insert]
        simp
      · rw [innerAt_cons_of_ne (Ne.symm hl), innerAt_cons_of_ne (Ne.symm hl)]
        simp [hl]
    · rw [if_neg hm]
      by_cases hlt : m < level
      · -- this is where the scope would stand
        rw [if_pos hlt]
        refine hfresh _ fun e he => ?_
        rcases List.mem_cons.1 he with rfl | he
        · exact hlt
        · exact Nat.lt_trans (hhead e he) hlt
      · rw [if_neg hlt]
        by_cases hl : l = m
        · subst hl
          rw [innerAt_cons_self, innerAt_cons_self]
          simp [hm]
        · rw [innerAt_cons_of_ne (Ne.symm hl), innerAt_cons_of_ne (Ne.symm hl)]
          exact ih (Descending.tail h)

/-- Binding a name at a level changes what stands under it there, and nothing else. -/
theorem get?_bind (s : Scopes) (level : Nat) (name : String) (v : Value) (l : Nat) (x : String) :
    (s.bind level name v).get? l x = if l = level ∧ x = name then some v else s.get? l x := by
  unfold bind
  by_cases hlevel : 0 < level
  · rw [dif_pos hlevel]
    by_cases hl : 0 < l
    · rw [get?_inner _ hl, get?_inner _ hl]
      exact get?_innerAt_bindInner s.descending level name v l x
    · have hzero : l = 0 := by omega
      subst hzero
      have hne : (0 : Nat) ≠ level := by omega
      simp [get?_zero, hne]
  · have hzero : level = 0 := by omega
    subst hzero
    rw [dif_neg hlevel]
    by_cases hl : 0 < l
    · have hne : l ≠ 0 := by omega
      rw [get?_inner _ hl, get?_inner _ hl]
      simp [hne]
    · have hl0 : l = 0 := by omega
      subst hl0
      rw [get?_zero, get?_zero, Dict.get?_insert]
      simp

/-- Closing drops the scopes above a level, which stand in front. -/
theorem innerAt_dropWhile {inner : List (Nat × Variables)} (h : Descending inner)
    (level l : Nat) :
    innerAt (inner.dropWhile (level < ·.1)) l = if l ≤ level then innerAt inner l else .empty := by
  induction inner with
  | nil => simp [innerAt]
  | cons e rest ih =>
    obtain ⟨m, vars⟩ := e
    have hhead := Descending.head h
    by_cases hm : level < m
    · -- the scope is dropped
      rw [List.dropWhile_cons_of_pos (by simpa using hm), ih (Descending.tail h)]
      by_cases hl : l ≤ level
      · have hne : m ≠ l := by omega
        rw [if_pos hl, if_pos hl, innerAt_cons_of_ne hne]
      · rw [if_neg hl, if_neg hl]
    · -- it stays, and so do all below it
      rw [List.dropWhile_cons_of_neg (by simpa using hm)]
      by_cases hl : l ≤ level
      · rw [if_pos hl]
      · rw [if_neg hl]
        refine innerAt_of_lt fun e he => ?_
        rcases List.mem_cons.1 he with rfl | he
        · simp only; omega
        · have hlt := hhead e he
          simp only at hlt
          omega

/-- Closing drops the scopes above a level, and nothing else. -/
theorem get?_close (s : Scopes) (level l : Nat) (x : String) :
    (s.close level).get? l x = if l ≤ level then s.get? l x else none := by
  by_cases hl : 0 < l
  · rw [get?_inner _ hl, get?_inner _ hl]
    show (innerAt (s.inner.dropWhile (level < ·.1)) l).get? x = _
    rw [innerAt_dropWhile s.descending]
    by_cases hle : l ≤ level
    · rw [if_pos hle, if_pos hle]
    · rw [if_neg hle, if_neg hle]
      rfl
  · have hzero : l = 0 := by omega
    subst hzero
    rw [if_pos (Nat.zero_le level)]
    rfl

/-! ## Names -/

/-- A name is bound at a level. -/
def Binds (s : Scopes) (l : Nat) (x : String) : Prop := (s.get? l x).isSome = true

theorem not_binds_empty (l : Nat) (x : String) : ¬empty.Binds l x := by
  unfold Binds get? variablesAt
  by_cases hl : l = 0 <;> simp [hl, empty]

/-- After binding there is one more binding, or the old one has a new value. -/
theorem binds_bind {s : Scopes} {level l : Nat} {name x : String} {v : Value} :
    (s.bind level name v).Binds l x ↔ (l = level ∧ x = name) ∨ s.Binds l x := by
  unfold Binds
  rw [get?_bind]
  by_cases h : l = level ∧ x = name
  · simp [h]
  · rw [if_neg h]
    exact ⟨.inr, fun h' => h'.resolve_left h⟩

/-- Closed scopes bind nothing, and the others bind what they did. -/
theorem binds_close {s : Scopes} {level l : Nat} {x : String} :
    (s.close level).Binds l x ↔ l ≤ level ∧ s.Binds l x := by
  unfold Binds
  rw [get?_close]
  by_cases h : l ≤ level <;> simp [h]

/-- Where a name is found among the inner scopes, it is bound, at a level of the code or below. -/
theorem levelInner?_eq_some {name : String} {level l : Nat} {inner : List (Nat × Variables)}
    (hdesc : Descending inner) (h : levelInner? name level inner = some l) :
    0 < l ∧ l ≤ level ∧ ((innerAt inner l).get? name).isSome = true := by
  induction inner with
  | nil => cases h
  | cons e rest ih =>
    obtain ⟨m, vars⟩ := e
    unfold levelInner? at h
    by_cases hm : (m ≤ level && vars.contains name) = true
    · rw [if_pos hm] at h
      cases h
      rw [Bool.and_eq_true, decide_eq_true_eq] at hm
      refine ⟨hdesc.2 _ List.mem_cons_self, hm.1, ?_⟩
      rw [innerAt_cons_self]
      exact hm.2
    · rw [if_neg hm] at h
      obtain ⟨hpos, hle, hfound⟩ := ih (Descending.tail hdesc) h
      refine ⟨hpos, hle, ?_⟩
      have hne : m ≠ l := by
        rintro rfl
        -- no scope below the first one has its level
        rw [innerAt_of_lt (Descending.head hdesc)] at hfound
        cases hfound
      rw [innerAt_cons_of_ne hne]
      exact hfound

/-- Code at a level finds a name where it is bound, at its level or below. -/
theorem binds_of_levelOf? {s : Scopes} {name : String} {level l : Nat}
    (h : s.levelOf? name level = some l) : l ≤ level ∧ s.Binds l name := by
  unfold levelOf? at h
  cases hinner : levelInner? name level s.inner with
  | some l' =>
    rw [hinner] at h
    cases h
    obtain ⟨hpos, hle, hfound⟩ := levelInner?_eq_some s.descending hinner
    refine ⟨hle, ?_⟩
    unfold Binds
    rw [get?_inner s hpos]
    exact hfound
  | none =>
    rw [hinner] at h
    dsimp only at h
    split at h
    · next hglobal =>
      cases h
      exact ⟨Nat.zero_le level, hglobal⟩
    · cases h

/-- Setting a name makes no other name, and makes it at the level of the code if at all. -/
theorem binds_set {s : Scopes} {name x : String} {v : Value} {level l : Nat} {asParam : Bool}
    (h : (s.set name v level asParam).Binds l x) : s.Binds l x ∨ l = level := by
  unfold set at h
  cases asParam with
  | true =>
    rcases binds_bind.1 h with ⟨hl, -⟩ | h
    · exact .inr hl
    · exact .inl h
  | false =>
    rcases binds_bind.1 h with ⟨hl, hx⟩ | h
    · -- an assignment goes to where the name is found
      subst hx
      cases hfound : s.levelOf? x level with
      | none =>
        rw [hfound] at hl
        exact .inr hl
      | some found =>
        rw [hfound] at hl
        subst hl
        exact .inl (binds_of_levelOf? hfound).2
    · exact .inl h

theorem Binds.set {s : Scopes} {l : Nat} {x : String} (h : s.Binds l x) (name : String) (v : Value)
    (level : Nat) (asParam : Bool) : (s.set name v level asParam).Binds l x := by
  unfold Scopes.set
  split <;> exact binds_bind.2 (.inr h)

theorem binds_bindParams {level : Nat} {params : List String} {args : List Value} {s : Scopes}
    {l : Nat} {x : String} (h : (bindParams level params args s).Binds l x) :
    s.Binds l x ∨ l = level := by
  induction params generalizing args s with
  | nil => exact .inl h
  | cons param params ih =>
    cases args with
    | nil => exact .inl h
    | cons arg args =>
      rcases ih h with h | h
      · exact binds_set h
      · exact .inr h

theorem Binds.bindParams {s : Scopes} {l : Nat} {x : String} (h : s.Binds l x) (level : Nat)
    (params : List String) (args : List Value) :
    (bindParams level params args s).Binds l x := by
  induction params generalizing args s with
  | nil => exact h
  | cons param params ih =>
    cases args with
    | nil => exact h
    | cons arg args => exact ih (h.set param arg level true) args

/-- Fields become global variables. -/
theorem binds_globals {fields : List (String × Value)} {s : Scopes} {l : Nat} {x : String} :
    (fields.foldl (fun s f => s.set f.1 f.2 0 true) s).Binds l x
      ↔ s.Binds l x ∨ (l = 0 ∧ ∃ f ∈ fields, f.1 = x) := by
  induction fields generalizing s with
  | nil => simp
  | cons f fields ih =>
    rw [List.foldl_cons, ih]
    show (s.bind 0 f.1 f.2).Binds l x ∨ _ ↔ _
    rw [binds_bind]
    simp only [List.mem_cons, exists_eq_or_imp]
    constructor
    · rintro ((⟨hl, hx⟩ | h) | ⟨hl, h⟩)
      · exact .inr ⟨hl, .inl hx.symm⟩
      · exact .inl h
      · exact .inr ⟨hl, .inr h⟩
    · rintro (h | ⟨hl, hx | h⟩)
      · exact .inl (.inr h)
      · exact .inl (.inl ⟨hl, hx.symm⟩)
      · exact .inr ⟨hl, h⟩

/-! ## Absorbing a store -/

/-- Afterwards the name is bound at the level, by now or from before. -/
theorem binds_bindNew {s : Scopes} {level l : Nat} {name x : String} {v : Value} :
    (s.bindNew level name v).Binds l x ↔ s.Binds l x ∨ (level = l ∧ name = x) := by
  unfold bindNew
  split
  · next hbound =>
    refine ⟨.inl, ?_⟩
    rintro (h | ⟨rfl, rfl⟩)
    · exact h
    · exact hbound
  · rw [binds_bind, or_comm, eq_comm (a := l), eq_comm (a := x)]

/-- Every one of the names is bound at the end, beside those from before. -/
theorem binds_foldl_bindNew {bs : List (Nat × String × Value)} {s : Scopes} {l : Nat}
    {x : String} :
    (bs.foldl (fun s b => s.bindNew b.1 b.2.1 b.2.2) s).Binds l x
      ↔ s.Binds l x ∨ ∃ b ∈ bs, b.1 = l ∧ b.2.1 = x := by
  induction bs generalizing s with
  | nil => simp
  | cons b bs ih =>
    rw [List.foldl_cons, ih, binds_bindNew, or_assoc]
    simp only [List.mem_cons, exists_eq_or_imp]

theorem isSome_find?_iff {x : String} {es : List (String × Value)} :
    (Dict.find? x es).isSome = true ↔ ∃ e ∈ es, e.1 = x := by
  induction es with
  | nil => simp [Dict.find?]
  | cons e es ih =>
    unfold Dict.find?
    simp only [List.mem_cons, exists_eq_or_imp]
    by_cases h : x = e.1
    · rw [if_pos h]
      simp [h]
    · rw [if_neg h, ih]
      exact ⟨.inr, fun h' => h'.resolve_left (Ne.symm h)⟩

/-- A name is found at a level if a scope of that level binds it, since there is one at most. -/
theorem isSome_innerAt_iff {inner : List (Nat × Variables)} (h : Descending inner) {l : Nat}
    {x : String} :
    ((innerAt inner l).get? x).isSome = true
      ↔ ∃ e ∈ inner, e.1 = l ∧ (e.2.get? x).isSome = true := by
  induction inner with
  | nil => simp [innerAt]
  | cons e rest ih =>
    obtain ⟨m, vars⟩ := e
    simp only [List.mem_cons, exists_eq_or_imp]
    by_cases hm : m = l
    · subst hm
      rw [innerAt_cons_self]
      refine ⟨fun hx => .inl ⟨rfl, hx⟩, ?_⟩
      rintro (⟨-, hx⟩ | ⟨e', he', hlevel, -⟩)
      · exact hx
      · -- no two scopes have one level
        have hlt := Descending.head h e' he'
        simp only at hlt
        omega
    · rw [innerAt_cons_of_ne hm, ih (Descending.tail h)]
      exact ⟨.inr, fun h' => h'.resolve_left fun h'' => hm h''.1⟩

/-- The bindings of a store are listed under the names that it binds. -/
theorem exists_bindings_iff {s : Scopes} {l : Nat} {x : String} :
    (∃ b ∈ s.bindings, b.1 = l ∧ b.2.1 = x) ↔ s.Binds l x := by
  have hpos := s.descending.2
  unfold bindings Binds
  -- the global scope comes first among the bindings, under level 0, and inner scopes have higher
  -- levels
  by_cases hl : 0 < l
  · rw [get?_inner s hl, isSome_innerAt_iff s.descending]
    constructor
    · rintro ⟨b, hb, rfl, rfl⟩
      rcases List.mem_append.1 hb with hb | hb
      · obtain ⟨f, -, rfl⟩ := List.mem_map.1 hb
        simp only at hl
        omega
      · obtain ⟨e, he, hb⟩ := List.mem_flatMap.1 hb
        obtain ⟨f, hf, rfl⟩ := List.mem_map.1 hb
        exact ⟨e, he, rfl, isSome_find?_iff.2 ⟨f, hf, rfl⟩⟩
    · rintro ⟨e, he, rfl, hx⟩
      obtain ⟨f, hf, rfl⟩ := isSome_find?_iff.1 hx
      refine ⟨(e.1, f.1, f.2), List.mem_append_right _ ?_, rfl, rfl⟩
      exact List.mem_flatMap.2 ⟨e, he, List.mem_map.2 ⟨f, hf, rfl⟩⟩
  · have hzero : l = 0 := by omega
    subst hzero
    rw [get?_zero]
    constructor
    · rintro ⟨b, hb, hlevel, rfl⟩
      rcases List.mem_append.1 hb with hb | hb
      · obtain ⟨f, hf, rfl⟩ := List.mem_map.1 hb
        exact isSome_find?_iff.2 ⟨f, hf, rfl⟩
      · obtain ⟨e, he, hb⟩ := List.mem_flatMap.1 hb
        obtain ⟨f, hf, rfl⟩ := List.mem_map.1 hb
        have hpos' := hpos e he
        simp only at hlevel
        omega
    · intro hx
      obtain ⟨f, hf, rfl⟩ := isSome_find?_iff.1 hx
      exact ⟨(0, f.1, f.2), List.mem_append_left _ (List.mem_map.2 ⟨f, hf, rfl⟩), rfl, rfl⟩

/-- Absorbing a store adds its names. -/
theorem binds_absorb {s other : Scopes} {l : Nat} {x : String} :
    (s.absorb other).Binds l x ↔ s.Binds l x ∨ other.Binds l x := by
  unfold absorb
  rw [binds_foldl_bindNew, exists_bindings_iff]

/-- What a list of bindings says first about a name at a level. -/
def firstBinding? (l : Nat) (x : String) (bs : List (Nat × String × Value)) : Option Value :=
  (bs.find? fun b => b.1 = l ∧ b.2.1 = x).map (·.2.2)

/-- The first binding of a name at a level is looked for from the front. -/
theorem firstBinding?_cons (l : Nat) (x : String) (b : Nat × String × Value)
    (bs : List (Nat × String × Value)) : firstBinding? l x (b :: bs)
      = if b.1 = l ∧ b.2.1 = x then some b.2.2 else firstBinding? l x bs := by
  unfold firstBinding?
  rw [List.find?_cons]
  by_cases h : b.1 = l ∧ b.2.1 = x <;> simp [h]

theorem firstBinding?_append (l : Nat) (x : String) (bs bs' : List (Nat × String × Value)) :
    firstBinding? l x (bs ++ bs') = (firstBinding? l x bs).or (firstBinding? l x bs') := by
  simp only [firstBinding?, List.find?_append, Option.map_or]

/-- Among the bindings of one scope the level is the same everywhere. -/
theorem firstBinding?_level (l k : Nat) (x : String) (es : List (String × Value)) :
    firstBinding? l x (es.map fun e => (k, e.1, e.2))
      = if k = l then Dict.find? x es else none := by
  induction es with
  | nil => simp [firstBinding?, Dict.find?]
  | cons e es ih =>
    rw [List.map_cons, firstBinding?_cons, ih]
    by_cases hx : e.1 = x
    · by_cases hk : k = l <;> simp [hk, hx, Dict.find?]
    · by_cases hk : k = l <;> simp [hk, hx, Ne.symm hx, Dict.find?]

/-- The bindings of a store say of a name what the store binds it to. -/
theorem firstBinding?_bindings (s : Scopes) (l : Nat) (x : String) :
    firstBinding? l x s.bindings = s.get? l x := by
  -- the inner scopes differ in their levels, so at most one has bindings of the level
  have hinner : ∀ inner, Descending inner → 0 < l →
      firstBinding? l x (inner.flatMap fun e => e.2.entries.map fun b => (e.1, b.1, b.2))
        = (innerAt inner l).get? x := by
    intro inner hdesc hl
    induction inner with
    | nil => rfl
    | cons e rest ih =>
      obtain ⟨m, vars⟩ := e
      rw [List.flatMap_cons, firstBinding?_append, firstBinding?_level, ih (Descending.tail hdesc)]
      by_cases hm : m = l
      · subst hm
        rw [if_pos rfl, innerAt_cons_self, innerAt_of_lt (Descending.head hdesc), Dict.get?_empty,
          Option.or_none]
        rfl
      · rw [if_neg hm, Option.none_or, innerAt_cons_of_ne hm]
  have houtside : ∀ inner : List (Nat × Variables), (∀ e ∈ inner, e.1 ≠ l) →
      firstBinding? l x (inner.flatMap fun e => e.2.entries.map fun b => (e.1, b.1, b.2)) = none := by
    intro inner hlevels
    induction inner with
    | nil => rfl
    | cons e rest ih =>
      rw [List.flatMap_cons, firstBinding?_append, firstBinding?_level,
        if_neg (hlevels e List.mem_cons_self), Option.none_or]
      exact ih fun e' he' => hlevels e' (List.mem_cons_of_mem _ he')
  unfold bindings
  rw [firstBinding?_append, firstBinding?_level]
  rcases Nat.eq_zero_or_pos l with rfl | hl
  · rw [if_pos rfl, houtside s.inner fun e he => Nat.ne_of_gt (s.descending.2 e he), Option.or_none]
    rfl
  · rw [if_neg (Nat.ne_of_lt hl), Option.none_or, hinner s.inner s.descending hl,
      get?_inner s hl]

/-- **Absorbing a store adds what it binds**, and where both bind a name at a level the first one's
value stays. -/
theorem get?_absorb (s other : Scopes) (l : Nat) (x : String) :
    (s.absorb other).get? l x = (s.get? l x).or (other.get? l x) := by
  rw [← firstBinding?_bindings other]
  unfold absorb
  generalize other.bindings = bs
  -- binding by binding; the first one of a name at a level is the one that counts
  induction bs generalizing s with
  | nil => exact (Option.or_none).symm
  | cons b bs ih =>
    obtain ⟨level, name, v⟩ := b
    rw [List.foldl_cons, ih, firstBinding?_cons]
    by_cases h : level = l ∧ name = x
    · rw [if_pos h]
      obtain ⟨rfl, rfl⟩ := h
      unfold bindNew
      split
      · next hbound =>
        obtain ⟨w, hw⟩ := Option.isSome_iff_exists.1 hbound
        simp only [hw, Option.some_or]
      · next hnew =>
        rw [get?_bind, if_pos ⟨rfl, rfl⟩, Option.not_isSome_iff_eq_none.1 hnew]
        rfl
    · rw [if_neg h]
      unfold bindNew
      split
      · rfl
      · rw [get?_bind, if_neg fun h' => h ⟨h'.1.symm, h'.2.symm⟩]

/-! ## What code sees -/

/-- A name that is bound at a level of the code or below is found there or above it. -/
theorem isSome_levelInner? {x : String} {level l : Nat} {inner : List (Nat × Variables)}
    (hl : l ≤ level)
    (h : ((innerAt inner l).get? x).isSome = true) : (levelInner? x level inner).isSome = true := by
  induction inner with
  | nil => cases h
  | cons e rest ih =>
    obtain ⟨k, vars⟩ := e
    unfold levelInner?
    by_cases hk : (k ≤ level && vars.contains x) = true
    · rw [if_pos hk]
      rfl
    · rw [if_neg hk]
      refine ih ?_
      by_cases heq : k = l
      · subst heq
        rw [innerAt_cons_self] at h
        have hfound : vars.contains x = true := h
        simp [hl, hfound] at hk
      · rwa [innerAt_cons_of_ne heq] at h

/-- Code at a level finds every name that is bound at its level or below. -/
theorem Binds.found {s : Scopes} {l level : Nat} {x : String} (h : s.Binds l x) (hl : l ≤ level) :
    ∃ k, s.levelOf? x level = some k := by
  unfold levelOf?
  cases hinner : levelInner? x level s.inner with
  | some k => exact ⟨k, rfl⟩
  | none =>
    rcases Nat.eq_zero_or_pos l with rfl | hpos
    · exact ⟨0, if_pos h⟩
    · unfold Binds at h
      rw [get?_inner s hpos] at h
      have hsome := isSome_levelInner? hl h
      rw [hinner] at hsome
      cases hsome

/-- The inner scopes give a name the value that it has at the highest level up to that of the
code. -/
theorem lookupInner_eq_some_iff {name : String} {level : Nat} {v : Value}
    {inner : List (Nat × Variables)} (hdesc : Descending inner) :
    lookupInner name level inner = some v ↔ ∃ l, 0 < l ∧ l ≤ level ∧
      (innerAt inner l).get? name = some v ∧
      ∀ k, l < k → k ≤ level → (innerAt inner k).get? name = none := by
  induction inner with
  | nil =>
    refine ⟨nofun, ?_⟩
    rintro ⟨l, -, -, hv, -⟩
    cases hv
  | cons e rest ih =>
    obtain ⟨m, vars⟩ := e
    have hhead := Descending.head hdesc
    have hm : 0 < m := hdesc.2 _ List.mem_cons_self
    have hrest : ∀ k, m < k → innerAt ((m, vars) :: rest) k = .empty := by
      intro k hk
      refine innerAt_of_lt fun e he => ?_
      rcases List.mem_cons.1 he with rfl | he
      · exact hk
      · exact Nat.lt_trans (hhead e he) hk
    -- a value from below, if the first scope says nothing about the name
    have hbelow : (m ≤ level → vars.get? name = none) →
        ((∃ l, 0 < l ∧ l ≤ level ∧ (innerAt rest l).get? name = some v ∧
            ∀ k, l < k → k ≤ level → (innerAt rest k).get? name = none) ↔
          ∃ l, 0 < l ∧ l ≤ level ∧ (innerAt ((m, vars) :: rest) l).get? name = some v ∧
            ∀ k, l < k → k ≤ level → (innerAt ((m, vars) :: rest) k).get? name = none) := by
      intro hnone
      have hsame : ∀ k, k ≤ level →
          (innerAt ((m, vars) :: rest) k).get? name = (innerAt rest k).get? name := by
        intro k hk
        by_cases heq : m = k
        · subst heq
          rw [innerAt_cons_self, hnone hk, innerAt_of_lt hhead]
          rfl
        · rw [innerAt_cons_of_ne heq]
      refine exists_congr fun l => and_congr_right fun _ => and_congr_right fun hl => ?_
      rw [hsame l hl]
      refine and_congr_right fun _ => forall_congr' fun k => forall_congr' fun _ => ?_
      exact forall_congr' fun hk => by rw [hsame k hk]
    unfold lookupInner
    -- the highest scope that code sees decides: its value counts, and if it has none, that of the
    -- scopes below it
    by_cases hle : m ≤ level
    · rw [if_pos hle]
      cases hv : vars.get? name with
      | none => exact (ih (Descending.tail hdesc)).trans (hbelow fun _ => hv)
      | some w =>
        constructor
        · rintro ⟨⟩
          refine ⟨m, hm, hle, by rw [innerAt_cons_self, hv], fun k hk _ => ?_⟩
          rw [hrest k hk]
          rfl
        · rintro ⟨l, -, hl, hv', hhighest⟩
          rcases Nat.lt_trichotomy l m with hlt | rfl | hlt
          · have hnone := hhighest m hlt hle
            rw [innerAt_cons_self, hv] at hnone
            cases hnone
          · rw [innerAt_cons_self, hv] at hv'
            exact hv'
          · rw [hrest l hlt] at hv'
            cases hv'
    · rw [if_neg hle]
      exact (ih (Descending.tail hdesc)).trans (hbelow fun h => absurd h hle)

/-- Code at a level sees the value that a name has at the highest level up to its own. -/
theorem lookup_eq_some_iff {s : Scopes} {name : String} {level : Nat} {v : Value} :
    s.lookup name level = some v ↔ ∃ l, l ≤ level ∧ s.get? l name = some v ∧
      ∀ k, l < k → k ≤ level → s.get? k name = none := by
  have hinner := @lookupInner_eq_some_iff name level
  unfold lookup
  cases hfound : lookupInner name level s.inner with
  -- the inner scopes are all above the global one, so the level is the one found among them
  | some w =>
    obtain ⟨l, hpos, hl, hw, hhighest⟩ := (hinner s.descending).1 hfound
    have hat : s.get? l name = some w := by rw [get?_inner s hpos, hw]
    have habove : ∀ k, l < k → k ≤ level → s.get? k name = none :=
      fun k hk hle => by rw [get?_inner s (Nat.lt_trans hpos hk), hhighest k hk hle]
    constructor
    · rintro ⟨⟩
      exact ⟨l, hl, hat, habove⟩
    · rintro ⟨l', hl', hv, hhighest'⟩
      rcases Nat.lt_trichotomy l l' with hlt | rfl | hlt
      · rw [habove l' hlt hl'] at hv
        cases hv
      · rw [← hat, hv]
      · rw [hhighest' l hlt hl] at hat
        cases hat
  | none =>
    have hnone : ∀ l, 0 < l → l ≤ level → s.get? l name = none := by
      intro l hpos hl
      by_contra hsome
      -- at the highest level that binds the name it would have been found
      obtain ⟨g, hfirst, hle, hat, hhighest⟩ : ∃ g, l ≤ g ∧ g ≤ level ∧ s.get? g name ≠ none ∧
          ∀ k, g < k → k ≤ level → s.get? k name = none :=
        ⟨Nat.findGreatest (s.get? · name ≠ none) level, Nat.le_findGreatest hl hsome,
          Nat.findGreatest_le level, Nat.findGreatest_spec (P := (s.get? · name ≠ none)) hl hsome,
          fun k hk hle => not_not.1 (Nat.findGreatest_is_greatest hk hle)⟩
      obtain ⟨w, hw⟩ := Option.ne_none_iff_exists'.1 hat
      have hg : 0 < g := Nat.lt_of_lt_of_le hpos hfirst
      have hsees := (hinner s.descending).2 ⟨g, hg, hle, by rw [← get?_inner s hg, hw],
        fun k hk hle => by rw [← get?_inner s (Nat.lt_trans hg hk), hhighest k hk hle]⟩
      rw [hfound] at hsees
      cases hsees
    constructor
    · exact fun hv => ⟨0, Nat.zero_le _, hv, fun k hk hle => hnone k hk hle⟩
    · rintro ⟨l, hl, hv, -⟩
      rcases Nat.eq_zero_or_pos l with rfl | hpos
      · exact hv
      · rw [hnone l hpos hl] at hv
        cases hv

/-- What code sees stays what it is if another store is absorbed that binds no name anew where the
code would see it. -/
theorem lookup_absorb {s other : Scopes} {name : String} {level : Nat} {v : Value}
    (hv : s.lookup name level = some v)
    (hknown : ∀ k, k ≤ level → other.Binds k name → s.Binds k name) :
    (s.absorb other).lookup name level = some v := by
  obtain ⟨l, hl, hfound, hhighest⟩ := lookup_eq_some_iff.1 hv
  refine lookup_eq_some_iff.2 ⟨l, hl, ?_, fun k hk hle => ?_⟩
  · rw [get?_absorb, hfound, Option.some_or]
  · rw [get?_absorb, hhighest k hk hle, Option.none_or]
    by_contra hsome
    have hbound := hknown k hle (Option.isSome_iff_ne_none.2 hsome)
    unfold Binds at hbound
    rw [hhighest k hk hle] at hbound
    cases hbound

/-! ## Values of global variables -/

section Globals

variable {s : Scopes} {x : String}

/-- A name is hidden from code at a level: it is bound above the global scope. -/
def Hides (s : Scopes) (x : String) (level : Nat) : Prop := ∃ l, 0 < l ∧ l ≤ level ∧ s.Binds l x

/-- A hidden name is found above the global scope. -/
theorem levelOf?_of_hides {level : Nat} (h : s.Hides x level) :
    ∃ l, 0 < l ∧ s.levelOf? x level = some l := by
  obtain ⟨l, hpos, hle, hbound⟩ := h
  unfold Binds at hbound
  rw [get?_inner s hpos] at hbound
  obtain ⟨found, hfound⟩ := Option.isSome_iff_exists.1 (isSome_levelInner? hle hbound)
  refine ⟨found, (levelInner?_eq_some s.descending hfound).1, ?_⟩
  unfold levelOf?
  rw [hfound]

/-- Binding a name above the global level is no matter to the global variables. -/
theorem get?_zero_bind {level : Nat} (hl : 0 < level) (name : String) (v : Value) :
    (s.bind level name v).get? 0 x = s.get? 0 x := by
  rw [get?_bind, if_neg (by omega)]

/-- What is assigned to other names, in clauses above the global level and to hidden names is no
matter for a global variable. -/
theorem get?_zero_set {name : String} {level : Nat} {asParam : Bool} (v : Value)
    (h : name = x → (asParam = true ∧ 0 < level) ∨ (asParam = false ∧ s.Hides x level)) :
    (s.set name v level asParam).get? 0 x = s.get? 0 x := by
  by_cases hname : name = x
  · subst hname
    rcases h rfl with ⟨rfl, hl⟩ | ⟨rfl, hhidden⟩
    · exact get?_zero_bind hl name v
    · obtain ⟨l, hpos, hfound⟩ := levelOf?_of_hides hhidden
      show (s.bind ((s.levelOf? name level).getD level) name v).get? 0 name = _
      rw [hfound]
      exact get?_zero_bind hpos name v
  · unfold set
    split <;> rw [get?_bind, if_neg fun hboth => hname hboth.2.symm]

theorem get?_zero_bindParams {level : Nat} (hl : 0 < level) (params : List String)
    (args : List Value) : (bindParams level params args s).get? 0 x = s.get? 0 x := by
  induction params generalizing args s with
  | nil => rfl
  | cons param params ih =>
    cases args with
    | nil => rfl
    | cons arg args =>
      unfold bindParams
      rw [ih, get?_zero_set arg fun _ => .inl ⟨rfl, hl⟩]

theorem get?_zero_close (level : Nat) : (s.close level).get? 0 x = s.get? 0 x := by
  rw [get?_close, if_pos (Nat.zero_le level)]

/-- A global variable keeps its value when another store is absorbed. -/
theorem get?_zero_absorb (h : s.Binds 0 x) (other : Scopes) :
    (s.absorb other).get? 0 x = s.get? 0 x := by
  obtain ⟨v, hv⟩ := Option.isSome_iff_exists.1 h
  rw [get?_absorb, hv, Option.some_or]

/-- Fields with different names become global variables with their values. -/
theorem get?_zero_globals {fields : List (String × Value)} (hnodup : (fields.map (·.1)).Nodup)
    {v : Value} (h : (x, v) ∈ fields) :
    (fields.foldl (fun s f => s.set f.1 f.2 0 true) s).get? 0 x = some v := by
  have hothers : ∀ {s : Scopes} {rest : List (String × Value)}, x ∉ rest.map (·.1) →
      (rest.foldl (fun s f => s.set f.1 f.2 0 true) s).get? 0 x = s.get? 0 x := by
    intro s rest hx
    induction rest generalizing s with
    | nil => rfl
    | cons f rest ih =>
      rw [List.map_cons, List.mem_cons, not_or] at hx
      rw [List.foldl_cons, ih hx.2, get?_zero_set f.2 fun hname => absurd hname.symm hx.1]
  induction fields generalizing s with
  | nil => cases h
  | cons f fields ih =>
    obtain ⟨hnew, hrest⟩ := List.nodup_cons.1 hnodup
    rcases List.mem_cons.1 h with rfl | h
    · rw [List.foldl_cons, hothers hnew]
      show (s.bind 0 x v).get? 0 x = some v
      rw [get?_bind, if_pos ⟨rfl, rfl⟩]
    · exact ih hrest h

end Globals

end Scopes
end BoxScript
