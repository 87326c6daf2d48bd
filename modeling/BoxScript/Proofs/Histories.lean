import BoxScript.Proofs.Instances
import BoxScript.Proofs.Store

/-!
# Stores of variables as maps

A store keeps its scopes in a list, has a scope only for a level that something was bound at, and
looks for a name from scope to scope. None of that shows. A store is a partial map from levels and
names to values (`Scopes.toMap`), and all that is done to it can as well be done to the map: a name
is bound where the map says it is found, closing restricts the map, and absorbing is the union in
which the first map counts.

So stores and maps go through any history alike (`depicted_run`): the same questions get the same
answers, and in the end each store still is the map. What the operations do can then be read off the
maps.
-/

namespace BoxScript

/-! ## Maps -/

/-- What names are bound to at the levels of a store: a partial map. -/
abbrev ScopeMap := Nat → String → Option Value

namespace ScopeMap

/-- The highest level up to the given one at which a name is bound. -/
def levelOf? (b : ScopeMap) (name : String) : Nat → Option Nat
  | 0 => if (b 0 name).isSome then some 0 else none
  | level + 1 => if (b (level + 1) name).isSome then some (level + 1) else levelOf? b name level

/-- What a name is bound to at the highest level up to the given one that binds it. -/
def lookup (b : ScopeMap) (name : String) (level : Nat) : Option Value :=
  (b.levelOf? name level).bind (b · name)

/-- The map with another value at one place. -/
def bind (b : ScopeMap) (level : Nat) (name : String) (v : Value) : ScopeMap :=
  fun l x => if l = level ∧ x = name then some v else b l x

/-- A parameter is bound at the level itself, and any other name where it is found. -/
def set (b : ScopeMap) (name : String) (v : Value) (level : Nat) (asParam : Bool) : ScopeMap :=
  if asParam then b.bind level name v else b.bind ((b.levelOf? name level).getD level) name v

/-- What is bound below a level, which must not be the global one. -/
def clear (b : ScopeMap) (level : Nat) : Except RuntimeError ScopeMap :=
  if level = 0 then .error .globalScopeCleared
  else .ok fun l x => if l < level then b l x else none

/-- What either map binds; where both do, what the first one does. -/
def union (b c : ScopeMap) : ScopeMap := fun l x => (b l x).or (c l x)

/-- What code at a level gets for a name. -/
def get (b : ScopeMap) (name : String) (level : Nat) : Except RuntimeError Value :=
  match b.lookup name level with
  | some v => .ok v
  | none => .error (.undefinedVariable name)

variable {b : ScopeMap} {name : String} {level l : Nat}

theorem levelOf?_eq_some_iff : b.levelOf? name level = some l ↔
    l ≤ level ∧ (b l name).isSome ∧ ∀ k, l < k → k ≤ level → b k name = none := by
  -- downwards from the level, as the function looks: the first one that binds the name is the
  -- highest
  induction level with
  | zero =>
    unfold levelOf?
    by_cases hbound : (b 0 name).isSome
    · rw [if_pos hbound]
      constructor
      · rintro ⟨⟩
        exact ⟨Nat.le_refl 0, hbound, fun k hk hle => by omega⟩
      · rintro ⟨hle, -, -⟩
        rw [Nat.le_zero.1 hle]
    · rw [if_neg hbound]
      refine ⟨nofun, ?_⟩
      rintro ⟨hle, hl, -⟩
      rw [Nat.le_zero.1 hle] at hl
      exact absurd hl hbound
  | succ level ih =>
    unfold levelOf?
    by_cases hbound : (b (level + 1) name).isSome
    · rw [if_pos hbound]
      constructor
      · rintro ⟨⟩
        exact ⟨Nat.le_refl _, hbound, fun k hk hle => by omega⟩
      · rintro ⟨hle, -, hhighest⟩
        -- a lower level is not the highest one
        by_contra hne
        have hlt : l < level + 1 := by
          rcases Nat.lt_or_eq_of_le hle with hlt | rfl
          · exact hlt
          · exact absurd rfl hne
        rw [hhighest _ hlt (Nat.le_refl _)] at hbound
        cases hbound
    · rw [if_neg hbound, ih]
      have hnone : b (level + 1) name = none := Option.not_isSome_iff_eq_none.1 hbound
      constructor
      · rintro ⟨hle, hl, hhighest⟩
        refine ⟨Nat.le_succ_of_le hle, hl, fun k hk hle => ?_⟩
        rcases Nat.lt_or_eq_of_le hle with hlt | rfl
        · exact hhighest k hk (Nat.le_of_lt_succ hlt)
        · exact hnone
      · rintro ⟨hle, hl, hhighest⟩
        have hne : l ≠ level + 1 := by
          rintro rfl
          exact hbound hl
        exact ⟨by omega, hl, fun k hk hle => hhighest k hk (Nat.le_succ_of_le hle)⟩

/-- Nothing is found if and only if no level up to there binds the name. -/
theorem levelOf?_eq_none_iff :
    b.levelOf? name level = none ↔ ∀ l, l ≤ level → b l name = none := by
  induction level with
  | zero =>
    unfold levelOf?
    simp
  | succ level ih =>
    unfold levelOf?
    by_cases hbound : (b (level + 1) name).isSome
    · rw [if_pos hbound]
      refine ⟨nofun, fun hnone => ?_⟩
      rw [hnone _ (Nat.le_refl _)] at hbound
      cases hbound
    · rw [if_neg hbound, ih]
      refine ⟨fun hnone l hl => ?_, fun hnone l hl => hnone l (Nat.le_succ_of_le hl)⟩
      rcases Nat.lt_or_eq_of_le hl with hlt | rfl
      · exact hnone l (Nat.le_of_lt_succ hlt)
      · exact Option.not_isSome_iff_eq_none.1 hbound

/-- A name that is bound nowhere above a place is found there as soon as it is bound there. -/
theorem lookup_bind (v : Value) (hl : l ≤ level)
    (habove : ∀ k, l < k → k ≤ level → b k name = none) :
    (b.bind l name v).lookup name level = some v := by
  have hat : b.bind l name v l name = some v := if_pos ⟨rfl, rfl⟩
  have hfound : (b.bind l name v).levelOf? name level = some l := by
    refine levelOf?_eq_some_iff.2 ⟨hl, Option.isSome_iff_exists.2 ⟨v, hat⟩, fun k hk hle => ?_⟩
    have hne : k ≠ l := Nat.ne_of_gt hk
    exact (if_neg fun h => hne h.1).trans (habove k hk hle)
  unfold lookup
  rw [hfound]
  exact hat

/-- An assignment goes to where the name is found. -/
theorem set_of_found (v : Value) (h : b.levelOf? name level = some l) :
    b.set name v level false = b.bind l name v := by
  unfold set
  rw [h]
  rfl

/-- A name that is bound nowhere is made at the level itself. -/
theorem set_of_none (v : Value) (h : b.levelOf? name level = none) :
    b.set name v level false = b.bind level name v := by
  unfold set
  rw [h]
  rfl

/-- **What is assigned to a name is what the name stands for.** -/
theorem lookup_set (b : ScopeMap) (name : String) (v : Value) (level : Nat) (asParam : Bool) :
    (b.set name v level asParam).lookup name level = some v := by
  have hlevel : (b.bind level name v).lookup name level = some v :=
    lookup_bind v (Nat.le_refl level) fun k hk hle => by omega
  cases asParam with
  | true => exact hlevel
  | false =>
    cases hfound : b.levelOf? name level with
    | none => rw [set_of_none v hfound, hlevel]
    | some l =>
      obtain ⟨hl, -, habove⟩ := levelOf?_eq_some_iff.1 hfound
      rw [set_of_found v hfound, lookup_bind v hl habove]

theorem union_assoc (b c d : ScopeMap) : (b.union c).union d = b.union (c.union d) := by
  funext l x
  exact Option.or_assoc

theorem union_self (b : ScopeMap) : b.union b = b := by
  funext l x
  exact Option.or_self

end ScopeMap

/-- What no item of a list changes is not changed by all of them in turn. -/
theorem foldl_of_fixed {α β : Type} {f : β → α → β} {b : β} {l : List α}
    (h : ∀ a ∈ l, f b a = b) : l.foldl f b = b := by
  induction l with
  | nil => rfl
  | cons a l ih =>
    rw [List.foldl_cons, h a List.mem_cons_self]
    exact ih fun a' ha' => h a' (List.mem_cons_of_mem _ ha')

/-! ## The map of a store -/

namespace Scopes

/-- The map that a store is. -/
def toMap (s : Scopes) : ScopeMap := s.get?

theorem toMap_default : (default : Scopes).toMap = default := by
  funext l x
  show empty.get? l x = none
  by_contra hbound
  exact not_binds_empty l x (Option.isSome_iff_ne_none.2 hbound)

/-- The inner scopes find a name at the highest of their levels that binds it. -/
theorem levelInner?_highest {name : String} {level l : Nat} {inner : List (Nat × Variables)}
    (hdesc : Descending inner) (h : levelInner? name level inner = some l) {k : Nat} (hk : l < k)
    (hle : k ≤ level) : (innerAt inner k).get? name = none := by
  induction inner with
  | nil => cases h
  | cons e rest ih =>
    obtain ⟨n, vars⟩ := e
    have hhead := Descending.head hdesc
    unfold levelInner? at h
    by_cases hn : (n ≤ level && vars.contains name) = true
    · rw [if_pos hn] at h
      injection h with h
      subst h
      -- the scopes are in descending order, so this is the highest one
      have hbelow : ∀ e ∈ (n, vars) :: rest, e.1 < k := by
        intro e he
        rcases List.mem_cons.1 he with rfl | he
        · exact hk
        · exact Nat.lt_trans (hhead e he) hk
      rw [innerAt_of_lt hbelow]
      rfl
    · rw [if_neg hn] at h
      by_cases heq : n = k
      · subst heq
        rw [innerAt_cons_self]
        by_contra hbound
        exact hn (Bool.and_eq_true_iff.2
          ⟨decide_eq_true hle, Option.isSome_iff_ne_none.2 hbound⟩)
      · rw [innerAt_cons_of_ne heq]
        exact ih (Descending.tail hdesc) h

/-- **Code finds a name where the map says.** -/
theorem levelOf?_toMap (s : Scopes) (name : String) (level : Nat) :
    s.levelOf? name level = s.toMap.levelOf? name level := by
  cases hfound : s.levelOf? name level with
  | none =>
    refine (ScopeMap.levelOf?_eq_none_iff.2 fun l hl => ?_).symm
    by_contra hbound
    have hbinds : s.Binds l name := Option.isSome_iff_ne_none.2 hbound
    obtain ⟨k, hk⟩ := hbinds.found hl
    rw [hfound] at hk
    cases hk
  | some l =>
    obtain ⟨hle, hbinds⟩ := binds_of_levelOf? hfound
    refine (ScopeMap.levelOf?_eq_some_iff.2 ⟨hle, hbinds, fun k hk hle => ?_⟩).symm
    have hpos : 0 < k := Nat.lt_of_le_of_lt (Nat.zero_le l) hk
    show s.get? k name = none
    rw [get?_inner s hpos]
    unfold levelOf? at hfound
    cases hinner : levelInner? name level s.inner with
    | some l' =>
      rw [hinner] at hfound
      cases hfound
      exact levelInner?_highest s.descending hinner hk hle
    | none =>
      by_contra hbound
      have hsome := isSome_levelInner? hle (Option.isSome_iff_ne_none.2 hbound)
      rw [hinner] at hsome
      cases hsome

theorem lookup_toMap (s : Scopes) (name : String) (level : Nat) :
    s.lookup name level = s.toMap.lookup name level := by
  refine Option.ext fun v => ?_
  rw [lookup_eq_some_iff]
  unfold ScopeMap.lookup
  rw [Option.bind_eq_some_iff]
  constructor
  · rintro ⟨l, hl, hv, hhighest⟩
    have hsome : (s.toMap l name).isSome := Option.isSome_iff_exists.2 ⟨v, hv⟩
    exact ⟨l, ScopeMap.levelOf?_eq_some_iff.2 ⟨hl, hsome, hhighest⟩, hv⟩
  · rintro ⟨l, hfound, hv⟩
    obtain ⟨hl, -, hhighest⟩ := ScopeMap.levelOf?_eq_some_iff.1 hfound
    exact ⟨l, hl, hv, hhighest⟩

theorem get_toMap (s : Scopes) (name : String) (level : Nat) :
    s.get name level = s.toMap.get name level := by
  unfold get ScopeMap.get
  cases hfound : s.toMap.lookup name level with
  | none => rw [lookup_toMap, hfound]
  | some v => rw [lookup_toMap, hfound]

theorem toMap_bind (s : Scopes) (level : Nat) (name : String) (v : Value) :
    (s.bind level name v).toMap = s.toMap.bind level name v := by
  funext l x
  exact get?_bind s level name v l x

/-- Assigning does so in the map, in a parameter list and outside. -/
theorem toMap_set (s : Scopes) (name : String) (v : Value) (level : Nat) (asParam : Bool) :
    (s.set name v level asParam).toMap = s.toMap.set name v level asParam := by
  unfold set ScopeMap.set
  cases asParam with
  | true => exact toMap_bind s level name v
  | false =>
    rw [levelOf?_toMap]
    exact toMap_bind s _ name v

/-- Clearing a level does so in the map, and fails where it fails. -/
theorem toMap_clear (s : Scopes) (level : Nat) :
    (s.clear level).map toMap = s.toMap.clear level := by
  cases level with
  | zero => rfl
  | succ level =>
    show Except.ok (s.close level).toMap = Except.ok _
    congr 1
    funext l x
    refine (get?_close s level l x).trans ?_
    simp only [Nat.lt_succ_iff]
    rfl

theorem toMap_absorb (s other : Scopes) : (s.absorb other).toMap = s.toMap.union other.toMap := by
  funext l x
  exact get?_absorb s other l x

/-- A store has nothing to add to itself. -/
theorem absorb_self (s : Scopes) : s.absorb s = s :=
  foldl_of_fixed fun b hb => if_pos (exists_bindings_iff.1 ⟨b, hb, rfl, rfl⟩)

end Scopes

/-! ## Histories -/

/-- What can be done with stores, which are named by handles. -/
inductive StoreOp where
  | create
  | copy (source : Handle)
  | set (store : Handle) (name : String) (v : Value) (level : Nat) (asParam : Bool)
  | clear (store : Handle) (level : Nat)
  | absorb (store source : Handle)
  | get (store : Handle) (name : String) (level : Nat)

/-- The store that is changed, if one is. -/
def StoreOp.target? : StoreOp → Option Handle
  | create | copy _ | get .. => none
  | set store .. | clear store _ | absorb store _ => some store

/-- What stores do when something is done with them. -/
structure StoreInterface (σ : Type) where
  set : σ → String → Value → Nat → Bool → σ
  clear : σ → Nat → Except RuntimeError σ
  absorb : σ → σ → σ
  get : σ → String → Nat → Except RuntimeError Value

/-- The stores of the program. -/
def Scopes.interface : StoreInterface Scopes :=
  ⟨Scopes.set, Scopes.clear, Scopes.absorb, Scopes.get⟩

/-- Maps in the place of stores. -/
def ScopeMap.interface : StoreInterface ScopeMap :=
  ⟨ScopeMap.set, ScopeMap.clear, ScopeMap.union, ScopeMap.get⟩

/-- The answer to something that is done with a store: a value if it was asked for one. -/
abbrev StoreAnswer := Except RuntimeError (Option Value)

namespace StoreInterface

variable {σ : Type} [Inhabited σ] (interface : StoreInterface σ)

/-- Do one thing with the stores of a pool. What fails changes nothing. -/
def step (stores : Pool σ) : StoreOp → StoreAnswer × Pool σ
  | .create => (.ok none, stores.push default)
  | .copy source => (.ok none, stores.push (stores.get source))
  | .set store name v level asParam =>
    (.ok none, stores.modify store (interface.set · name v level asParam))
  | .clear store level =>
    match interface.clear (stores.get store) level with
    | .ok rest => (.ok none, stores.modify store fun _ => rest)
    | .error e => (.error e, stores)
  | .absorb store source => (.ok none, stores.modify store (interface.absorb · (stores.get source)))
  | .get store name level => ((interface.get (stores.get store) name level).map some, stores)

/-- Do one thing after the other, and collect the answers. -/
def run (stores : Pool σ) : List StoreOp → List StoreAnswer × Pool σ
  | [] => ([], stores)
  | op :: ops =>
    let (answer, stores) := interface.step stores op
    let (answers, stores) := run stores ops
    (answer :: answers, stores)

variable {stores : Pool σ} {store : Handle} {level : Nat}

/-- A level that is cleared leaves the store that the interface says. -/
theorem step_clear_ok {rest : σ} (h : interface.clear (stores.get store) level = .ok rest) :
    interface.step stores (.clear store level) = (.ok none, stores.modify store fun _ => rest) := by
  simp only [step, h]

theorem step_clear_error {e : RuntimeError}
    (h : interface.clear (stores.get store) level = .error e) :
    interface.step stores (.clear store level) = (.error e, stores) := by
  simp only [step, h]

/-- All other stores are left alone. -/
theorem get_step {op : StoreOp} {h : Handle} (hh : h.index < stores.size)
    (hother : op.target? ≠ some h) : (interface.step stores op).2.get h = stores.get h := by
  have hne : ∀ store, some store ≠ some h → store ≠ h :=
    fun _ hsome heq => hsome (congrArg some heq)
  cases op with
  | create => exact Pool.get_push_of_lt hh _
  | copy source => exact Pool.get_push_of_lt hh _
  | set store => exact Pool.get_modify_of_ne (hne store hother) _
  | clear store level =>
    cases hclear : interface.clear (stores.get store) level with
    | ok rest =>
      rw [interface.step_clear_ok hclear]
      exact Pool.get_modify_of_ne (hne store hother) _
    | error e => rw [interface.step_clear_error hclear]
  | absorb store source => exact Pool.get_modify_of_ne (hne store hother) _
  | get => rfl

end StoreInterface

/-- Each of the maps is that of the store in its place. -/
structure Depicted (stores : Pool Scopes) (maps : Pool ScopeMap) : Prop where
  size : maps.size = stores.size
  get : ∀ h, maps.get h = (stores.get h).toMap

namespace Depicted

variable {stores : Pool Scopes} {maps : Pool ScopeMap}

theorem push (d : Depicted stores maps) (s : Scopes) :
    Depicted (stores.push s) (maps.push s.toMap) := by
  have hnext : maps.next = stores.next := congrArg Handle.mk d.size
  refine ⟨by rw [Pool.size_push, Pool.size_push, d.size], fun h => ?_⟩
  by_cases hh : h = stores.next
  · rw [hh, Pool.get_push_next, ← hnext, Pool.get_push_next]
  · rw [Pool.get_push_of_ne hh, Pool.get_push_of_ne (hnext ▸ hh), d.get]

theorem modify (d : Depicted stores maps) (h : Handle) {f : Scopes → Scopes}
    {g : ScopeMap → ScopeMap} (hfg : (f (stores.get h)).toMap = g (stores.get h).toMap) :
    Depicted (stores.modify h f) (maps.modify h g) := by
  refine ⟨by rw [Pool.size_modify, Pool.size_modify, d.size], fun k => ?_⟩
  by_cases hk : h = k
  · subst hk
    by_cases hh : h.index < stores.size
    · rw [Pool.get_modify_self hh, Pool.get_modify_self (d.size ▸ hh), d.get, hfg]
    · rw [Pool.get_modify_of_le (Nat.le_of_not_lt hh),
        Pool.get_modify_of_le (d.size ▸ Nat.le_of_not_lt hh), d.get]
  · rw [Pool.get_modify_of_ne hk, Pool.get_modify_of_ne hk, d.get]

/-- Whatever is done, stores and maps give one answer, and go on as they were. -/
theorem step (d : Depicted stores maps) (op : StoreOp) :
    (Scopes.interface.step stores op).1 = (ScopeMap.interface.step maps op).1 ∧
      Depicted (Scopes.interface.step stores op).2 (ScopeMap.interface.step maps op).2 := by
  cases op with
  | create =>
    refine ⟨rfl, ?_⟩
    show Depicted (stores.push default) (maps.push default)
    rw [← Scopes.toMap_default]
    exact d.push default
  | copy source =>
    refine ⟨rfl, ?_⟩
    show Depicted (stores.push (stores.get source)) (maps.push (maps.get source))
    rw [d.get]
    exact d.push _
  | set store name v level asParam =>
    exact ⟨rfl, d.modify store (Scopes.toMap_set _ name v level asParam)⟩
  | clear store level =>
    have hclear := Scopes.toMap_clear (stores.get store) level
    rw [← d.get] at hclear
    cases hends : Scopes.interface.clear (stores.get store) level with
    | ok rest =>
      have hmap : ScopeMap.interface.clear (maps.get store) level = .ok rest.toMap :=
        hclear.symm.trans (congrArg (Except.map Scopes.toMap) hends)
      rw [Scopes.interface.step_clear_ok hends, ScopeMap.interface.step_clear_ok hmap]
      exact ⟨rfl, d.modify store rfl⟩
    | error e =>
      have hmap : ScopeMap.interface.clear (maps.get store) level = .error e :=
        hclear.symm.trans (congrArg (Except.map Scopes.toMap) hends)
      rw [Scopes.interface.step_clear_error hends, ScopeMap.interface.step_clear_error hmap]
      exact ⟨rfl, d⟩
  | absorb store source =>
    refine ⟨rfl, d.modify store ?_⟩
    show _ = (Scopes.toMap _).union (maps.get source)
    rw [d.get]
    exact Scopes.toMap_absorb _ _
  | get store name level =>
    refine ⟨?_, d⟩
    show ((stores.get store).get name level).map some = ((maps.get store).get name level).map some
    rw [d.get, Scopes.get_toMap]

end Depicted

/-- **Stores and maps go through any history alike.** -/
theorem depicted_run {stores : Pool Scopes} {maps : Pool ScopeMap} (d : Depicted stores maps)
    (ops : List StoreOp) :
    (Scopes.interface.run stores ops).1 = (ScopeMap.interface.run maps ops).1 ∧
      Depicted (Scopes.interface.run stores ops).2 (ScopeMap.interface.run maps ops).2 := by
  induction ops generalizing stores maps with
  | nil => exact ⟨rfl, d⟩
  | cons op ops ih =>
    obtain ⟨hanswer, hnext⟩ := d.step op
    obtain ⟨hanswers, hlast⟩ := ih hnext
    exact ⟨congrArg₂ List.cons hanswer hanswers, hlast⟩

/-- Without stores there is nothing to compare. -/
theorem depicted_empty : Depicted .empty .empty where
  size := rfl
  get h := by
    rw [Pool.get_of_le (Nat.zero_le _), Pool.get_of_le (Nat.zero_le _), Scopes.toMap_default]

/-! ## What can be relied on -/

/-- What stores of variables do, in terms of what names are bound to at the levels. -/
structure StoresAreMaps : Prop where
  /-- Stores go through any history as maps do: they give the same answers, and in the end they bind
  the same names to the same values at the same levels. -/
  history : ∀ ops : List StoreOp,
    (Scopes.interface.run .empty ops).1 = (ScopeMap.interface.run .empty ops).1 ∧
      ∀ h, ((Scopes.interface.run .empty ops).2.get h).toMap
        = (ScopeMap.interface.run .empty ops).2.get h
  /-- What is done with one store leaves all others alone, also one that it absorbs. -/
  others : ∀ {stores : Pool Scopes} {op : StoreOp} {h : Handle}, h.index < stores.size →
    op.target? ≠ some h → (Scopes.interface.step stores op).2.get h = stores.get h
  /-- A copy starts out as what it was made of. -/
  copied : ∀ (stores : Pool Scopes) (h : Handle),
    (Scopes.interface.step stores (.copy h)).2.get stores.next = stores.get h
  /-- Code sees the value that a name has at the highest level up to its own that binds it. -/
  seen : ∀ {s : Scopes} {x level v}, s.lookup x level = some v ↔
    ∃ l, l ≤ level ∧ s.toMap l x = some v ∧ ∀ k, l < k → k ≤ level → s.toMap k x = none
  /-- It sees nothing under a name that is bound at none of these levels. -/
  unseen : ∀ {s : Scopes} {x level}, s.lookup x level = none ↔ ∀ l, l ≤ level → s.toMap l x = none
  /-- A parameter is bound at the level of the code, whatever there is, and nothing else changes. -/
  parameter : ∀ (s : Scopes) (x v level), (s.set x v level true).toMap = s.toMap.bind level x v
  /-- Of any other name the binding changes that the code sees, and nothing else. -/
  found : ∀ {s : Scopes} {x level l} (v), l ≤ level → s.Binds l x →
    (∀ k, l < k → k ≤ level → s.toMap k x = none) →
    (s.set x v level false).toMap = s.toMap.bind l x v
  /-- If it sees none, one is made at the level of the code, and nothing else changes. -/
  made : ∀ {s : Scopes} {x level} (v), (∀ l, l ≤ level → s.toMap l x = none) →
    (s.set x v level false).toMap = s.toMap.bind level x v
  /-- What was assigned to a name is seen under it. -/
  assigned : ∀ (s : Scopes) (x v level asParam),
    (s.set x v level asParam).lookup x level = some v
  /-- Clearing takes away what is bound at a level or above it, and nothing else. -/
  cleared : ∀ (s : Scopes) {level}, 0 < level → ∃ rest, s.clear level = .ok rest ∧
    ∀ l x, rest.toMap l x = if l < level then s.toMap l x else none
  /-- The global scope cannot be cleared, and an attempt changes nothing. -/
  global : ∀ (stores : Pool Scopes) (h : Handle),
    Scopes.interface.step stores (.clear h 0) = (.error .globalScopeCleared, stores)
  /-- Absorbing is the union in which the store's own bindings count. -/
  absorbed : ∀ (s t : Scopes) (l x), (s.absorb t).toMap l x = (s.toMap l x).or (t.toMap l x)
  kept : ∀ {s : Scopes} {l x v} (t : Scopes), s.toMap l x = some v →
    (s.absorb t).toMap l x = some v
  associative : ∀ s t u : Scopes,
    ((s.absorb t).absorb u).toMap = (s.absorb (t.absorb u)).toMap
  /-- Nothing is added by the store itself, or by what has been absorbed already. -/
  idempotent : ∀ s t : Scopes, s.absorb s = s ∧ ((s.absorb t).absorb t).toMap = (s.absorb t).toMap

/-- **A store of variables is a partial map from levels and names to values**, whatever is done with
it, and however many levels there are between those that bind something. -/
theorem stores_are_maps : StoresAreMaps := by
  constructor
  -- the general statement, from which the laws of single operations do not follow at once
  case history =>
    intro ops
    obtain ⟨hanswers, d⟩ := depicted_run depicted_empty ops
    exact ⟨hanswers, fun h => (d.get h).symm⟩
  case others => exact fun hh hother => Scopes.interface.get_step hh hother
  case copied => exact fun stores h => Pool.get_push_next stores _
  case seen => exact Scopes.lookup_eq_some_iff
  case unseen =>
    intro s x level
    rw [Scopes.lookup_toMap, ← ScopeMap.levelOf?_eq_none_iff]
    unfold ScopeMap.lookup
    cases hfound : s.toMap.levelOf? x level with
    | none => simp
    | some l =>
      obtain ⟨-, hbound, -⟩ := ScopeMap.levelOf?_eq_some_iff.1 hfound
      simp [Option.isSome_iff_ne_none.1 hbound]
  case parameter => exact fun s x v level => Scopes.toMap_set s x v level true
  case found =>
    intro s x level l v hl hbound habove
    have hfound : s.toMap.levelOf? x level = some l :=
      ScopeMap.levelOf?_eq_some_iff.2 ⟨hl, hbound, habove⟩
    rw [Scopes.toMap_set, ScopeMap.set_of_found v hfound]
  case made =>
    intro s x level v hnone
    rw [Scopes.toMap_set, ScopeMap.set_of_none v (ScopeMap.levelOf?_eq_none_iff.2 hnone)]
  case assigned =>
    intro s x v level asParam
    rw [Scopes.lookup_toMap, Scopes.toMap_set]
    exact ScopeMap.lookup_set _ _ _ _ _
  case cleared =>
    intro s level hlevel
    obtain ⟨below, rfl⟩ := Nat.exists_eq_succ_of_ne_zero (Nat.ne_of_gt hlevel)
    refine ⟨s.close below, rfl, fun l x => ?_⟩
    refine (Scopes.get?_close s below l x).trans ?_
    simp only [Nat.lt_succ_iff]
    rfl
  case global => exact fun stores h => rfl
  case absorbed => exact Scopes.get?_absorb
  case kept =>
    intro s l x v t hv
    refine (Scopes.get?_absorb s t l x).trans ?_
    rw [show s.get? l x = some v from hv]
    rfl
  case associative =>
    intro s t u
    simp only [Scopes.toMap_absorb, ScopeMap.union_assoc]
  case idempotent =>
    intro s t
    refine ⟨s.absorb_self, ?_⟩
    simp only [Scopes.toMap_absorb, ScopeMap.union_assoc, ScopeMap.union_self]

/-- An assignment three levels up changes the global variable, and leaves no scope behind. -/
example : (Scopes.interface.run .empty [.create, .set ⟨0⟩ "x" (.int 1) 0 false,
    .set ⟨0⟩ "x" (.int 2) 3 false, .get ⟨0⟩ "x" 0, .clear ⟨0⟩ 0, .get ⟨0⟩ "x" 5]).1
      = [.ok none, .ok none, .ok none, .ok (some (.int 2)), .error .globalScopeCleared,
        .ok (some (.int 2))] := by
  rfl

end BoxScript
