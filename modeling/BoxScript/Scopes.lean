import BoxScript.Dict
import BoxScript.Value

/-!
# Numbered scopes

A store of variables has scopes that are numbered by level. Level 0 is the global scope, which is
never closed; blocks and calls use the levels above it. Code at level `n` sees the variables of
the levels up to `n`, and of several with one name the one at the highest level.

The scopes above level 0 are kept highest first, each level once. That order is part of the type,
so every law of the store holds without a side condition.
-/

namespace BoxScript

/-- The variables of one scope. -/
abbrev Variables := Dict String Value

/-- Scopes above level 0 stand highest first, each level once. -/
def Descending (inner : List (Nat × Variables)) : Prop :=
  inner.Pairwise (fun a b => b.1 < a.1) ∧ ∀ e ∈ inner, 0 < e.1

/-- A store of variables in numbered scopes. -/
structure Scopes where
  globals : Variables
  inner : List (Nat × Variables)
  descending : Descending inner

namespace Scopes

/-- No variables. -/
def empty : Scopes := ⟨.empty, [], by simp [Descending]⟩

instance : Inhabited Scopes := ⟨empty⟩

/-! ## Changing scopes -/

/-- Bind a name at one level of the inner scopes. -/
def bindInner (level : Nat) (name : String) (v : Value) :
    List (Nat × Variables) → List (Nat × Variables)
  | [] => [(level, Dict.empty.insert name v)]
  | (l, vars) :: rest =>
    if l = level then (l, vars.insert name v) :: rest
    else if l < level then (level, Dict.empty.insert name v) :: (l, vars) :: rest
    else (l, vars) :: bindInner level name v rest

theorem mem_bindInner_level {level : Nat} {name : String} {v : Value}
    {inner : List (Nat × Variables)} {e : Nat × Variables}
    (h : e ∈ bindInner level name v inner) : e.1 = level ∨ ∃ e' ∈ inner, e'.1 = e.1 := by
  induction inner with
  | nil => simp_all [bindInner]
  | cons x rest ih =>
    obtain ⟨l, vars⟩ := x
    unfold bindInner at h
    split at h
    · rcases List.mem_cons.1 h with rfl | h
      · exact .inr ⟨_, List.mem_cons_self, rfl⟩
      · exact .inr ⟨e, List.mem_cons_of_mem _ h, rfl⟩
    · split at h
      · rcases List.mem_cons.1 h with rfl | h
        · exact .inl rfl
        · exact .inr ⟨e, h, rfl⟩
      · rcases List.mem_cons.1 h with rfl | h
        · exact .inr ⟨_, List.mem_cons_self, rfl⟩
        · rcases ih h with h | ⟨e', he', h⟩
          · exact .inl h
          · exact .inr ⟨e', List.mem_cons_of_mem _ he', h⟩

theorem descending_bindInner {level : Nat} (hl : 0 < level) (name : String) (v : Value)
    {inner : List (Nat × Variables)} (h : Descending inner) :
    Descending (bindInner level name v inner) := by
  refine ⟨?_, fun e he => ?_⟩
  · induction inner with
    | nil => simp [bindInner]
    | cons x rest ih =>
      obtain ⟨l, vars⟩ := x
      obtain ⟨hp, hpos⟩ := h
      obtain ⟨hx, hrest⟩ := List.pairwise_cons.1 hp
      unfold bindInner
      split
      · exact List.pairwise_cons.2 ⟨hx, hrest⟩
      · split
        · refine List.pairwise_cons.2 ⟨fun e he => ?_, hp⟩
          rcases List.mem_cons.1 he with rfl | he
          · assumption
          · exact Nat.lt_trans (hx e he) (by assumption)
        · refine List.pairwise_cons.2
            ⟨fun e he => ?_, ih ⟨hrest, fun e he => hpos e (List.mem_cons_of_mem _ he)⟩⟩
          rcases mem_bindInner_level he with h | ⟨e', he', h⟩
          · simp only; omega
          · rw [← h]; exact hx e' he'
  · rcases mem_bindInner_level he with h' | ⟨e', he', h'⟩
    · omega
    · rw [← h']; exact h.2 e' he'

/-- Bind a name at a level, in the place of what it is bound to there. -/
def bind (s : Scopes) (level : Nat) (name : String) (v : Value) : Scopes :=
  if h : 0 < level then
    ⟨s.globals, bindInner level name v s.inner, descending_bindInner h name v s.descending⟩
  else { s with globals := s.globals.insert name v }

/-- Drop all scopes above a level. -/
def close (s : Scopes) (level : Nat) : Scopes :=
  ⟨s.globals, s.inner.dropWhile (level < ·.1),
    s.descending.1.sublist (List.dropWhile_sublist _),
    fun e he => s.descending.2 e ((List.dropWhile_sublist _).subset he)⟩

/-! ## Looking at scopes -/

/-- The variables of one level. -/
def variablesAt (s : Scopes) (level : Nat) : Variables :=
  if level = 0 then s.globals
  else match s.inner.find? (·.1 = level) with
    | some (_, vars) => vars
    | none => .empty

/-- What a name is bound to at one level. -/
def get? (s : Scopes) (level : Nat) (name : String) : Option Value :=
  (s.variablesAt level).get? name

/-- What a name stands for in the inner scopes up to a level. -/
def lookupInner (name : String) (level : Nat) : List (Nat × Variables) → Option Value
  | [] => none
  | (l, vars) :: rest =>
    if l ≤ level then
      match vars.get? name with
      | some v => some v
      | none => lookupInner name level rest
    else lookupInner name level rest

/-- What a name stands for in code at a level. -/
def lookup (s : Scopes) (name : String) (level : Nat) : Option Value :=
  match lookupInner name level s.inner with
  | some v => some v
  | none => s.globals.get? name

/-- The highest level up to the given one at which the inner scopes bind a name. -/
def levelInner? (name : String) (level : Nat) : List (Nat × Variables) → Option Nat
  | [] => none
  | (l, vars) :: rest =>
    if l ≤ level && vars.contains name then some l else levelInner? name level rest

/-- The level at which code at a level finds a name. -/
def levelOf? (s : Scopes) (name : String) (level : Nat) : Option Nat :=
  match levelInner? name level s.inner with
  | some l => some l
  | none => if s.globals.contains name then some 0 else none

/-- All bindings: level, name and value. -/
def bindings (s : Scopes) : List (Nat × String × Value) :=
  s.globals.entries.map (fun e => (0, e.1, e.2))
    ++ s.inner.flatMap fun l => l.2.entries.map fun e => (l.1, e.1, e.2)

/-! ## The operations of the language -/

/-- Assign to a name in code at a level. A parameter is bound at that very level. Any other name
keeps the level at which the code finds it, and is bound at the code's level if it finds none. -/
def set (s : Scopes) (name : String) (v : Value) (level : Nat) (asParam : Bool) : Scopes :=
  if asParam then s.bind level name v
  else s.bind ((s.levelOf? name level).getD level) name v

/-- What a name stands for in code at a level. -/
def get (s : Scopes) (name : String) (level : Nat) : Except RuntimeError Value :=
  match s.lookup name level with
  | some v => .ok v
  | none => .error (.undefinedVariable name)

/-- Drop the scopes from a level on. The global scope cannot be dropped. -/
def clear (s : Scopes) : Nat → Except RuntimeError Scopes
  | 0 => .error .globalScopeCleared
  | level + 1 => .ok (s.close level)

/-- Bind a name at a level unless it is bound there. -/
def bindNew (s : Scopes) (level : Nat) (name : String) (v : Value) : Scopes :=
  if (s.get? level name).isSome then s else s.bind level name v

/-- The bindings of both stores; where both bind a name at a level, the first one's value. -/
def absorb (s other : Scopes) : Scopes :=
  other.bindings.foldl (fun s b => s.bindNew b.1 b.2.1 b.2.2) s

/-- Variables in the order of their names. -/
def listVariables (vars : Variables) : List (String × Value) :=
  vars.sorted fun a b => a ≤ b

/-- The levels that bind something, lowest first, each with its variables in order. -/
def listing (s : Scopes) : List (Nat × List (String × Value)) :=
  ((0, s.globals) :: s.inner.reverse).filterMap fun e =>
    if e.2.entries.isEmpty then none else some (e.1, listVariables e.2)

end Scopes
end BoxScript
