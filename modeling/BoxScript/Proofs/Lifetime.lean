import BoxScript.Proofs.Course
import BoxScript.Proofs.Instances
import BoxScript.Proofs.Store

/-!
# How long names live

Levels are numbers, and one store can hold the names of several calls at a time: a method that is
called again while it runs, by itself, through other instances or from an imported script, uses the
store that its first call still needs. What keeps the calls apart is that code only ever makes names
at its own level, that everything it calls runs above that level, and that scopes are only closed
down to the level of a caller. `Outlives` is what follows for the machines before and after some
code at a level of a store:

* names up to the level stay, in all stores;
* a new name in an old store is at that very level of that very store, or it is a field of the
  instance that the store belongs to, at level 0.

The last case looks like an exception to the lifetime of names, but for the store of the running
code it is none, since a method starts with all fields of its instance bound (`Holders.Active`).
-/

namespace BoxScript

/-- What holds names: stores of variables, and instances with their fields. -/
structure Holders where
  stores : Pool Scopes
  instances : Pool Instance

/-- The stores and the instances of a machine. -/
def Machine.holders (m : Machine) : Holders := ⟨m.heap.scopes, m.heap.instances⟩

namespace Holders

variable {e e' : Holders} {active : Handle} {level : Nat}

/-- A name is bound at a level of a store. -/
def Binds (e : Holders) (s : Handle) (l : Nat) (x : String) : Prop := (e.stores.get s).Binds l x

/-- A store holds the variables of one of the functions of an instance. -/
def Owns (e : Holders) (h s : Handle) : Prop := ∃ r, (e.instances.get h).HasLocals s r

/-- A name is a field of the instance that a store belongs to. -/
def IsField (e : Holders) (s : Handle) (x : String) : Prop :=
  ∃ h, e.Owns h s ∧ (e.instances.get h).HasField x

/-- The stores of functions exist, and no two instances share one. -/
structure Sound (e : Holders) : Prop where
  inRange : ∀ {h s}, e.Owns h s → s.index < e.stores.size
  apart : ∀ {h k s}, e.Owns h s → e.Owns k s → h = k

/-- The store that code works on exists. If it belongs to an instance, the fields of the instance
are among its global variables. -/
structure Active (e : Holders) (active : Handle) : Prop where
  inRange : active.index < e.stores.size
  fields : ∀ {x}, e.IsField active x → e.Binds active 0 x

/-- What code at a level of a store makes of all names. -/
structure Outlives (e : Holders) (active : Handle) (level : Nat) (e' : Holders) : Prop where
  stores : e.stores.size ≤ e'.stores.size
  instances : e.instances.size ≤ e'.instances.size
  outline : ∀ {h}, h.index < e.instances.size →
    (e'.instances.get h).outline = (e.instances.get h).outline
  fresh : ∀ {h s}, e.instances.size ≤ h.index → e'.Owns h s → e.stores.size ≤ s.index
  keeps : ∀ {s l x}, l ≤ level → e.Binds s l x → e'.Binds s l x
  makes : ∀ {s l x}, s.index < e.stores.size → e'.Binds s l x →
    e.Binds s l x ∨ (s = active ∧ l = level) ∨ (l = 0 ∧ e'.IsField s x)

theorem binds_lt {s : Handle} {l : Nat} {x : String} (h : e.Binds s l x) :
    s.index < e.stores.size := by
  by_contra hout
  unfold Binds at h
  rw [Pool.get_of_le (by omega)] at h
  exact Scopes.not_binds_empty l x h

theorem owns_lt {h s : Handle} (howns : e.Owns h s) : h.index < e.instances.size := by
  by_contra hout
  obtain ⟨r, routine, access, l, hslot⟩ := howns
  rw [Pool.get_of_le (by omega)] at hslot
  cases hslot

namespace Outlives

theorem owns (o : e.Outlives active level e') {h s : Handle} (howns : e.Owns h s) :
    e'.Owns h s := by
  obtain ⟨r, hr⟩ := howns
  exact ⟨r, hr.of_outline (o.outline (owns_lt ⟨r, hr⟩))⟩

/-- An old store has no new owner. -/
theorem owned (o : e.Outlives active level e') {h s : Handle} (howns : e'.Owns h s)
    (hs : s.index < e.stores.size) : e.Owns h s := by
  by_cases hold : h.index < e.instances.size
  · obtain ⟨r, hr⟩ := howns
    exact ⟨r, hr.of_outline (o.outline hold).symm⟩
  · have hfresh := o.fresh (by omega) howns
    omega

theorem isField (o : e.Outlives active level e') {s : Handle} {x : String} (h : e.IsField s x) :
    e'.IsField s x := by
  obtain ⟨k, howns, hx⟩ := h
  exact ⟨k, o.owns howns, hx.of_outline (o.outline (owns_lt howns))⟩

/-- What is a field of a store that was there was one before. -/
theorem wasField (o : e.Outlives active level e') {s : Handle} {x : String}
    (h : e'.IsField s x) (hs : s.index < e.stores.size) : e.IsField s x := by
  obtain ⟨k, howns, hx⟩ := h
  have howned := o.owned howns hs
  exact ⟨k, howned, hx.of_outline (o.outline (owns_lt howned)).symm⟩

theorem refl (e : Holders) (active : Handle) (level : Nat) : e.Outlives active level e where
  stores := Nat.le_refl _
  instances := Nat.le_refl _
  outline _ := rfl
  fresh hh howns := absurd (owns_lt howns) (by omega)
  keeps _ h := h
  makes _ h := .inl h

/-- Code at a level, then code at that level of that store, or code above it in a store that the
first did not have. -/
theorem trans {e₀ e₁ e₂ : Holders} {a b : Handle} {l k : Nat} (o : e₀.Outlives a l e₁)
    (o' : e₁.Outlives b k e₂) (hlevel : l ≤ k)
    (hstore : b.index < e₀.stores.size → b = a ∧ k = l) : e₀.Outlives a l e₂ where
  stores := Nat.le_trans o.stores o'.stores
  instances := Nat.le_trans o.instances o'.instances
  outline hh := (o'.outline (Nat.lt_of_lt_of_le hh o.instances)).trans (o.outline hh)
  fresh := by
    intro h s hh howns
    have hgrown := o.stores
    by_cases hs : s.index < e₁.stores.size
    · exact o.fresh hh (o'.owned howns hs)
    · omega
  keeps hl h := o'.keeps (Nat.le_trans hl hlevel) (o.keeps hl h)
  makes := by
    intro s l' x hs h
    rcases o'.makes (Nat.lt_of_lt_of_le hs o.stores) h with h | ⟨rfl, rfl⟩ | ⟨hl, hfield⟩
    · -- the first code has made the name, if any
      rcases o.makes hs h with h | h | ⟨hl, hfield⟩
      · exact .inl h
      · exact .inr (.inl h)
      · exact .inr (.inr ⟨hl, o'.isField hfield⟩)
    · exact .inr (.inl (hstore hs))
    · exact .inr (.inr ⟨hl, hfield⟩)

theorem next {e₀ e₁ e₂ : Holders} (o : e₀.Outlives active level e₁)
    (o' : e₁.Outlives active level e₂) : e₀.Outlives active level e₂ :=
  o.trans o' (Nat.le_refl level) fun _ => ⟨rfl, rfl⟩

end Outlives

/-- Code leaves its own store in order. -/
theorem Active.outlives (h : e.Active active) (o : e.Outlives active level e') :
    e'.Active active where
  inRange := Nat.lt_of_lt_of_le h.inRange o.stores
  fields hx := o.keeps (Nat.zero_le level) (h.fields (o.wasField hx h.inRange))

/-! ## Steps -/

/-- A change of one store. -/
theorem outlives_modify {t : Handle} {f : Scopes → Scopes}
    (keeps : ∀ {l x}, l ≤ level → e.Binds t l x → (f (e.stores.get t)).Binds l x)
    (makes : ∀ {l x}, (f (e.stores.get t)).Binds l x →
      e.Binds t l x ∨ (t = active ∧ l = level) ∨ (l = 0 ∧ e.IsField t x)) :
    e.Outlives active level { e with stores := e.stores.modify t f } where
  stores := Nat.le_of_eq (Pool.size_modify _ _ _).symm
  instances := Nat.le_refl _
  outline _ := rfl
  fresh hh howns := absurd (owns_lt (e := e) howns) (by omega)
  keeps := by
    intro s l x hl h
    show ((e.stores.modify t f).get s).Binds l x
    rcases Pool.get_modify_cases e.stores t f s with ⟨rfl, -, hget⟩ | hget
    · rw [hget]
      exact keeps hl h
    · rw [hget]
      exact h
  makes := by
    intro s l x hs h
    change ((e.stores.modify t f).get s).Binds l x at h
    rcases Pool.get_modify_cases e.stores t f s with ⟨rfl, -, hget⟩ | hget
    · rw [hget] at h
      exact makes h
    · rw [hget] at h
      exact .inl h

/-- A change of an instance that leaves its outline alone. -/
theorem outlives_instance (h : Handle) {f : Instance → Instance}
    (hf : ∀ i, (f i).outline = i.outline) :
    e.Outlives active level { e with instances := e.instances.modify h f } where
  stores := Nat.le_refl _
  instances := Nat.le_of_eq (Pool.size_modify _ _ _).symm
  outline {k} _ := outline_modify hf k
  fresh := by
    intro k s hk howns
    have hlt : k.index < (e.instances.modify h f).size := owns_lt howns
    rw [Pool.size_modify] at hlt
    omega
  keeps _ h := h
  makes _ h := .inl h

/-- A store is added. -/
theorem outlives_push (s : Scopes) :
    e.Outlives active level { e with stores := e.stores.push s } where
  stores := by
    show e.stores.size ≤ (e.stores.push s).size
    rw [Pool.size_push]
    omega
  instances := Nat.le_refl _
  outline _ := rfl
  fresh hh howns := absurd (owns_lt (e := e) howns) (by omega)
  keeps := by
    intro t l x _ h
    show ((e.stores.push s).get t).Binds l x
    rw [Pool.get_push_of_lt (binds_lt h)]
    exact h
  makes := by
    intro t l x ht h
    change ((e.stores.push s).get t).Binds l x at h
    rw [Pool.get_push_of_lt ht] at h
    exact .inl h

/-- The scope of code one level above some level is closed down to it, so that only what it did at
lower levels is left. -/
theorem Outlives.close {a : Handle} {closed : Nat} (o : e.Outlives a (closed + 1) e')
    (hlevel : level ≤ closed) (b : Handle) :
    e.Outlives b level { e' with stores := e'.stores.modify a (·.close closed) } where
  stores := by
    show e.stores.size ≤ (e'.stores.modify a _).size
    rw [Pool.size_modify]
    exact o.stores
  instances := o.instances
  outline := o.outline
  fresh := o.fresh
  keeps := by
    intro s l x hl h
    have hkept := o.keeps (by omega) h
    show ((e'.stores.modify a _).get s).Binds l x
    rcases Pool.get_modify_cases e'.stores a (·.close closed) s with ⟨rfl, -, hget⟩ | hget
    · rw [hget]
      exact Scopes.binds_close.2 ⟨by omega, hkept⟩
    · rw [hget]
      exact hkept
  makes := by
    intro s l x hs h
    change ((e'.stores.modify a _).get s).Binds l x at h
    by_cases ha : a = s
    · subst ha
      rw [Pool.get_modify_self (Nat.lt_of_lt_of_le hs o.stores)] at h
      obtain ⟨hl, h⟩ := Scopes.binds_close.1 h
      rcases o.makes hs h with h | ⟨-, hl'⟩ | h
      · exact .inl h
      -- what the code has made at its own level has just been closed
      · omega
      · exact .inr (.inr h)
    · rw [Pool.get_modify_of_ne ha] at h
      rcases o.makes hs h with h | ⟨rfl, -⟩ | h
      · exact .inl h
      · exact absurd rfl ha
      · exact .inr (.inr h)

/-- The stores of functions stay apart as long as no instance gets other ones. -/
theorem Sound.of_owns (h : e.Sound) (hstores : e.stores.size ≤ e'.stores.size)
    (howns : ∀ {h s}, e'.Owns h s → e.Owns h s) : e'.Sound where
  inRange ho := Nat.lt_of_lt_of_le (h.inRange (howns ho)) hstores
  apart ho ho' := h.apart (howns ho) (howns ho')

/-- Changing a store takes nothing away from its owner. -/
theorem Sound.modify (h : e.Sound) (t : Handle) (f : Scopes → Scopes) :
    Sound { e with stores := e.stores.modify t f } :=
  h.of_owns (Nat.le_of_eq (Pool.size_modify _ _ _).symm) id

/-- Changing an instance without its outline leaves the owners alone. -/
theorem Sound.instance (h : e.Sound) (t : Handle) {f : Instance → Instance}
    (hf : ∀ i, (f i).outline = i.outline) :
    Sound { e with instances := e.instances.modify t f } :=
  h.of_owns (Nat.le_refl _) fun {k _} ⟨r, hr⟩ => ⟨r, hr.of_outline (outline_modify hf k).symm⟩

theorem Sound.push (h : e.Sound) (s : Scopes) : Sound { e with stores := e.stores.push s } := by
  refine h.of_owns ?_ id
  show e.stores.size ≤ (e.stores.push s).size
  rw [Pool.size_push]
  omega

/-! ## New instances -/

section New

variable {heap heap' : Heap} {i : Instance}

/-- The stores of an instance are new on the heap. -/
def StoresNew (heap heap' : Heap) (i : Instance) : Prop :=
  ∀ {s r}, i.HasLocals s r → heap.scopes.size ≤ s.index ∧ s.index < heap'.scopes.size

/-- An owner of a store is the new instance or an old owner. -/
theorem owns_push (e : Holders) {stores : Pool Scopes} {h s : Handle}
    (howns : Owns ⟨stores, e.instances.push i⟩ h s) :
    (h = e.instances.next ∧ ∃ r, i.HasLocals s r) ∨ e.Owns h s := by
  obtain ⟨r, hr⟩ := howns
  change ((e.instances.push i).get h).HasLocals s r at hr
  by_cases hh : h = e.instances.next
  · subst hh
    rw [Pool.get_push_next] at hr
    exact .inl ⟨rfl, r, hr⟩
  · rw [Pool.get_push_of_ne hh] at hr
    exact .inr ⟨r, hr⟩

/-- A new instance takes new stores, which are empty, and leaves those in use alone. -/
theorem outlives_allocate (grown : heap.Grown heap') (hnew : StoresNew heap heap' i) :
    Outlives ⟨heap.scopes, heap.instances⟩ active level
      ⟨heap'.scopes, heap'.instances.push i⟩ where
  stores := grown.moreScopes
  instances := by
    show heap.instances.size ≤ (heap'.instances.push i).size
    rw [Pool.size_push, grown.instances]
    omega
  outline := by
    intro h hh
    show ((heap'.instances.push i).get h).outline = _
    rw [grown.instances, Pool.get_push_of_lt hh]
  fresh := by
    intro h s hh howns
    rw [grown.instances] at howns
    rcases owns_push ⟨heap.scopes, heap.instances⟩ howns with ⟨-, r, hr⟩ | howns
    · exact (hnew hr).1
    · exact absurd (owns_lt howns) (Nat.not_lt.2 hh)
  keeps := by
    intro s l x _ h
    unfold Binds at h ⊢
    rw [grown.scopes]
    exact h
  makes := by
    intro s l x _ h
    unfold Binds at h ⊢
    rw [grown.scopes] at h
    exact .inl h

theorem Sound.allocate (h : Sound ⟨heap.scopes, heap.instances⟩) (grown : heap.Grown heap')
    (hnew : StoresNew heap heap' i) : Sound ⟨heap'.scopes, heap'.instances.push i⟩ := by
  rw [grown.instances]
  constructor
  · intro k s howns
    rcases owns_push ⟨heap.scopes, heap.instances⟩ howns with ⟨-, r, hr⟩ | howns
    · exact (hnew hr).2
    · exact Nat.lt_of_lt_of_le (h.inRange howns) grown.moreScopes
  · intro k k' s howns howns'
    rcases owns_push ⟨heap.scopes, heap.instances⟩ howns with ⟨hk, r, hr⟩ | howns <;>
      rcases owns_push ⟨heap.scopes, heap.instances⟩ howns' with ⟨hk', r', hr'⟩ | howns'
    · exact hk.trans hk'.symm
    -- a store is not new and old at once
    · exact absurd (h.inRange howns') (Nat.not_lt.2 (hnew hr).1)
    · exact absurd (h.inRange howns) (Nat.not_lt.2 (hnew hr').1)
    · exact h.apart howns howns'

end New
end Holders

/-! ## Runs -/

/-- Names in their places on the machine, and the names that are pinned up to a level still
there. -/
structure Lasting (floor : Nat) (pinned : Handle → Nat → String → Prop) (m : Machine) : Prop where
  sound : m.holders.Sound
  active : m.holders.Active m.context.scopes
  above : floor ≤ m.context.level
  bound : ∀ {s l x}, l ≤ floor → pinned s l x → m.holders.Binds s l x

/-- Code outlives the names of its callers. -/
def lifetimeContract (floor : Nat) (pinned : Handle → Nat → String → Prop) : Contract where
  lax := False
  inv := Lasting floor pinned
  rel m m' := m'.context.scopes = m.context.scopes ∧ m'.context.level = m.context.level ∧
    m.holders.Outlives m.context.scopes m.context.level m'.holders

section Frames

variable {floor : Nat} {pinned : Handle → Nat → String → Prop} {m m' : Machine}

theorem Lasting.allows (hm : Lasting floor pinned m) (hsound : m'.holders.Sound)
    (o : m.holders.Outlives m.context.scopes m.context.level m'.holders)
    (hscopes : m'.context.scopes = m.context.scopes)
    (hlevel : m'.context.level = m.context.level) :
    (lifetimeContract floor pinned).Allows m m' where
  inv :=
    { sound := hsound
      active := by
        rw [hscopes]
        exact hm.active.outlives o
      above := by
        rw [hlevel]
        exact hm.above
      bound := fun hl hx => o.keeps (Nat.le_trans hl hm.above) (hm.bound hl hx) }
  rel := ⟨hscopes, hlevel, o⟩

/-- A step that touches neither stores nor instances. -/
theorem Lasting.untouched (hm : Lasting floor pinned m) (hholders : m'.holders = m.holders)
    (hscopes : m'.context.scopes = m.context.scopes)
    (hlevel : m'.context.level = m.context.level) :
    (lifetimeContract floor pinned).Allows m m' := by
  refine hm.allows ?_ ?_ hscopes hlevel
  · rw [hholders]
    exact hm.sound
  · rw [hholders]
    exact .refl _ _ _

/-- A step that binds names at the level of the code in its store. -/
theorem Lasting.binding (hm : Lasting floor pinned m) {f : Scopes → Scopes}
    (keeps : ∀ {s : Scopes} {l x}, s.Binds l x → (f s).Binds l x)
    (makes : ∀ {s : Scopes} {l x}, (f s).Binds l x → s.Binds l x ∨ l = m.context.level) :
    (lifetimeContract floor pinned).Allows m (m.updateScopes f) := by
  refine hm.allows (hm.sound.modify m.context.scopes f) ?_ rfl rfl
  refine Holders.outlives_modify (fun _ h => keeps h) fun h => ?_
  rcases makes h with h | hl
  · exact .inl h
  · exact .inr (.inl ⟨rfl, hl⟩)

/-- The way out of a scope that code was in. -/
theorem Lasting.leaveScope (hm : Lasting floor pinned m) (hsound : m'.holders.Sound)
    (o : m.holders.Outlives m.context.scopes (m.context.level + 1) m'.holders)
    (hscopes : m'.context.scopes = m.context.scopes) (c : Bool) :
    (lifetimeContract floor pinned).Allows m ((m'.closeTo m.context.level).withClause c) := by
  refine hm.allows (hsound.modify m'.context.scopes _) ?_ hscopes rfl
  have hclose := o.close (Nat.le_refl _) m.context.scopes
  rw [← hscopes] at hclose ⊢
  exact hclose

theorem Lasting.allocate (hm : Lasting floor pinned m) {d : BoxDef} {fields : List Slot}
    (hfields : FieldSlots fields d.fields) :
    (lifetimeContract floor pinned).Allows m (allocate d fields m).machine := by
  obtain ⟨methods, heap, grown, hmethods, hmade⟩ := allocate_cases d fields m
  have hnew : Holders.StoresNew m.heap heap ⟨d.name, fields ++ methods⟩ := by
    rintro s r ⟨routine, access, level, hslot⟩
    rcases List.mem_append.1 hslot with hslot | hslot
    · exact absurd hslot hfields.not_function
    · obtain ⟨f, -, locals, heq, hlow, hhigh, -⟩ := hmethods _ hslot
      cases heq
      exact ⟨hlow, hhigh⟩
  rw [hmade]
  exact hm.allows (hm.sound.allocate grown hnew) (Holders.outlives_allocate grown hnew) rfl rfl

section Methods

variable {h : Handle} {signature : Signature} {routine : Routine} {access : Access}
  {locals : Locals}

/-- The way into a method: the fields of its instance become global variables of its store. -/
theorem outlives_enterMethod
    (hfound : (m.instanceAt h).method? signature = some (routine, access, locals))
    (active : Nat) (a : Handle) (l : Nat) :
    m.holders.Outlives a l (enterMethod h signature locals active m).holders := by
  have howns : m.holders.Owns h locals.scopes := ⟨_, Instance.hasLocals_of_method? hfound⟩
  -- first the level of the method is raised, then the fields are bound
  let raised : Holders :=
    { m.holders with instances := m.heap.instances.modify h (·.setLevel signature active) }
  have hraised : m.holders.Outlives a l raised :=
    Holders.outlives_instance h fun i => i.outline_setLevel signature active
  refine hraised.next ?_
  refine Holders.outlives_modify (e := raised) (fun _ hx => ?_) fun hx => ?_
  · exact Scopes.binds_globals.2 (.inl hx)
  · rcases Scopes.binds_globals.1 hx with hx | ⟨hl, hx⟩
    · exact .inl hx
    · exact .inr (.inr ⟨hl, hraised.isField ⟨h, howns, Instance.mem_fields_iff.1 hx⟩⟩)

/-- On the way into a method its store has all that it had, and the fields. -/
theorem Lasting.enterMethod (hm : Lasting floor pinned m)
    (hfound : (m.instanceAt h).method? signature = some (routine, access, locals)) :
    Lasting floor pinned
      (enterMethod h signature locals (max m.context.level locals.level + 1) m) := by
  have howns : m.holders.Owns h locals.scopes := ⟨_, Instance.hasLocals_of_method? hfound⟩
  have hrange := hm.sound.inRange howns
  have o := outlives_enterMethod hfound (max m.context.level locals.level + 1) m.context.scopes
    m.context.level
  have hsound := hm.sound.instance h fun i =>
    i.outline_setLevel signature (max m.context.level locals.level + 1)
  have hlevel := hm.above
  refine ⟨hsound.modify locals.scopes _, ⟨Nat.lt_of_lt_of_le hrange o.stores, ?_⟩, ?_, ?_⟩
  · -- only this instance has the store, and all its fields have just been bound
    intro x hx
    obtain ⟨k, hk, hfield⟩ := o.wasField hx hrange
    have heq : k = h := hm.sound.apart hk howns
    subst heq
    show ((m.heap.scopes.modify locals.scopes _).get locals.scopes).Binds 0 x
    rw [Pool.get_modify_self (show locals.scopes.index < m.heap.scopes.size from hrange)]
    exact Scopes.binds_globals.2 (.inr ⟨rfl, Instance.mem_fields_iff.2 hfield⟩)
  · show floor ≤ max m.context.level locals.level + 1
    omega
  · exact fun hl hx => o.keeps (Nat.le_trans hl hm.above) (hm.bound hl hx)

/-- The way out of a method: its scopes are closed down to the caller's level or above it. -/
theorem Lasting.leaveMethod (hm : Lasting floor pinned m)
    (hfound : (m.instanceAt h).method? signature = some (routine, access, locals))
    (hsound : m'.holders.Sound)
    (o : (BoxScript.enterMethod h signature locals
        (max m.context.level locals.level + 1) m).holders.Outlives locals.scopes
      (max m.context.level locals.level + 1) m'.holders) :
    (lifetimeContract floor pinned).Allows m
      (leaveMethod h signature locals m.context (max m.context.level locals.level)
        locals.level m') := by
  have henter := outlives_enterMethod hfound (max m.context.level locals.level + 1)
    m.context.scopes m.context.level
  -- the scopes are closed, then level and fields of the instance are set
  let closed : Holders := { m'.holders with
    stores := m'.heap.scopes.modify locals.scopes (·.close (max m.context.level locals.level)) }
  have hclose : Holders.Outlives _ m.context.scopes m.context.level closed :=
    o.close (Nat.le_max_left _ _) m.context.scopes
  have hlevel : closed.Outlives m.context.scopes m.context.level _ :=
    Holders.outlives_instance h fun i => i.outline_setLevel signature locals.level
  refine hm.allows ?_ ?_ rfl rfl
  · exact ((hsound.modify locals.scopes _).instance h fun i =>
      i.outline_setLevel signature locals.level).instance h fun i => i.outline_mapFields _
  · refine ((henter.next hclose).next hlevel).next ?_
    exact Holders.outlives_instance h fun i => i.outline_mapFields _

end Methods

/-! ### Imports -/

/-- A fork works on a copy, which nothing owns. -/
theorem outlives_forked (a : Handle) (l : Nat) : m.holders.Outlives a l m.forked.holders :=
  Holders.outlives_push _

theorem Lasting.forked (hm : Lasting floor pinned m) : Lasting floor pinned m.forked where
  sound := hm.sound.push _
  active :=
    { inRange := by
        show m.heap.scopes.size < (m.heap.scopes.push _).size
        rw [Pool.size_push]
        omega
      fields := by
        -- a copy belongs to no instance
        rintro x ⟨k, howns, -⟩
        exact absurd (hm.sound.inRange howns) (Nat.lt_irrefl m.heap.scopes.size) }
  above := hm.above
  bound hl hx :=
    (outlives_forked m.context.scopes m.context.level).keeps (Nat.le_trans hl hm.above)
      (hm.bound hl hx)

/-- What a script does on its copy is no matter for the stores that were there before. -/
theorem Lasting.imported
    (o : m.forked.holders.Outlives m.heap.scopes.next m.context.level m'.holders) :
    m.holders.Outlives m.context.scopes m.context.level m'.holders :=
  (outlives_forked _ _).trans o (Nat.le_refl _) fun h => absurd h (Nat.lt_irrefl m.heap.scopes.size)

/-- The names on the copy of a script's variables are those it started with, and new ones at the
level of the import. -/
theorem Lasting.copied (hm : Lasting floor pinned m)
    (o : m.forked.holders.Outlives m.heap.scopes.next m.context.level m'.holders) {l : Nat}
    {x : String} (h : m'.holders.Binds m.heap.scopes.next l x) :
    m.holders.Binds m.context.scopes l x ∨ l = m.context.level := by
  rcases o.makes hm.forked.active.inRange h with h | ⟨-, hl⟩ | ⟨-, k, howns, -⟩
  · change ((m.heap.scopes.push _).get m.heap.scopes.next).Binds l x at h
    rw [Pool.get_push_next] at h
    exact .inl h
  · exact .inr hl
  · have howned := o.owned howns hm.forked.active.inRange
    exact absurd (hm.sound.inRange howned) (Nat.lt_irrefl m.heap.scopes.size)

theorem Lasting.merged (hm : Lasting floor pinned m) (hsound : m'.holders.Sound)
    (o : m.forked.holders.Outlives m.heap.scopes.next m.context.level m'.holders)
    (hscopes : m'.context.scopes = m.heap.scopes.next)
    (hlevel : m'.context.level = m.context.level) :
    (lifetimeContract floor pinned).Allows m (m.merged m') := by
  have oimport := Lasting.imported o
  -- the copy is another store, so there is something to absorb
  have hne : m.context.scopes ≠ m'.context.scopes := by
    rw [hscopes]
    intro heq
    have hrange := hm.active.inRange
    rw [heq] at hrange
    exact Nat.lt_irrefl _ hrange
  have hholders : (m.merged m').holders = { m'.holders with
      stores := m'.heap.scopes.modify m.context.scopes
        fun s => s.absorb (m'.heap.scopes.get m'.context.scopes) } := by
    show Holders.mk (Context.mergeCell _ _ _ _) _ = _
    unfold Context.mergeCell
    rw [if_neg hne]
    rfl
  refine hm.allows ?_ ?_ rfl hlevel
  · rw [hholders]
    exact hsound.modify _ _
  rw [hholders]
  refine { oimport with stores := ?_, keeps := ?_, makes := ?_ }
  · show m.heap.scopes.size ≤ (m'.heap.scopes.modify _ _).size
    rw [Pool.size_modify]
    exact oimport.stores
  · intro s l x hl h
    have hkept := oimport.keeps hl h
    unfold Holders.Binds
    rcases Pool.get_modify_cases m'.heap.scopes m.context.scopes
      (·.absorb (m'.heap.scopes.get m'.context.scopes)) s with ⟨rfl, -, hget⟩ | hget <;> rw [hget]
    · exact Scopes.binds_absorb.2 (.inl hkept)
    · exact hkept
  · intro s l x hs h
    unfold Holders.Binds at h
    rcases Pool.get_modify_cases m'.heap.scopes m.context.scopes
      (·.absorb (m'.heap.scopes.get m'.context.scopes)) s with ⟨rfl, -, hget⟩ | hget <;>
      rw [hget] at h
    · -- names of the copy are old ones or at the level of the import
      rcases Scopes.binds_absorb.1 h with h | h
      · exact oimport.makes hs h
      · rw [hscopes] at h
        rcases hm.copied o h with h | hl
        · exact .inl h
        · exact .inr (.inl ⟨rfl, hl⟩)
    · exact oimport.makes hs h

/-- No step forgets a name before its scope is over. -/
theorem lifetimeContract_frames (floor : Nat) (pinned : Handle → Nat → String → Prop) :
    (lifetimeContract floor pinned).Frames AnyNode AnyNode where
  everywhere := ⟨fun _ _ => trivial, fun _ _ => trivial⟩
  fragment := anyNode_language.toFragment
  scripts {m} _ := anyNode_language.scriptsIn m
  code {m} _ := m.codeIn_any
  refl _ := ⟨rfl, rfl, .refl _ _ _⟩
  trans := by
    rintro a b c ⟨hscopes, hlevel, o⟩ ⟨hscopes', hlevel', o'⟩
    rw [hscopes, hlevel] at o'
    exact ⟨hscopes'.trans hscopes, hlevel'.trans hlevel, o.next o'⟩
  console _ hm := hm.untouched rfl rfl rfl
  declare _ _ hm := hm.untouched rfl rfl rfl
  register _ _ _ hm := hm.untouched rfl rfl rfl
  extend _ _ _ hm := hm.untouched rfl rfl rfl
  linkIn _ hm := ⟨hm.sound, hm.active, hm.above, hm.bound⟩
  linkOut _ hm moves := hm.allows moves.inv.sound moves.rel.2.2 moves.rel.1 moves.rel.2.1
  linkRefused hm := hm.untouched rfl rfl rfl
  push _ hm := hm.untouched rfl rfl rfl
  dropSignal hm := hm.untouched rfl rfl rfl
  -- an assignment binds a name at most at the level of the code, and so do parameters
  assign _ v _ moves := moves.inv.binding (fun h => h.set _ v _ _) Scopes.binds_set
  bindParams params args hm :=
    hm.binding (fun h => h.bindParams _ params args) Scopes.binds_bindParams
  allocate _ _ _ hfields hm := hm.allocate hfields
  setField h field v hm :=
    hm.allows (hm.sound.instance h fun i => i.outline_setField field v)
      (Holders.outlives_instance h fun i => i.outline_setField field v) rfl rfl
  scopeIn _ hm := ⟨hm.sound, hm.active, Nat.le_succ_of_le hm.above, hm.bound⟩
  scopeOut _ hm moves := hm.leaveScope moves.inv.sound moves.rel.2.2 moves.rel.1 _
  clauseIn hm := ⟨hm.sound, hm.active, hm.above, hm.bound⟩
  clauseOut hm moves := hm.allows moves.inv.sound moves.rel.2.2 moves.rel.1 moves.rel.2.1
  callIn hm _ := ⟨hm.sound, hm.active, hm.above, hm.bound⟩
  callOut hm _ moves := hm.allows moves.inv.sound moves.rel.2.2 moves.rel.1 moves.rel.2.1
  methodIn hm hfound := hm.enterMethod hfound
  methodOut hm hfound moves := hm.leaveMethod hfound moves.inv.sound moves.rel.2.2
  fork hm := hm.forked
  merge hm moves := hm.merged moves.inv.sound moves.rel.2.2 moves.rel.1 moves.rel.2.1
  discard _ hm moves := hm.allows moves.inv.sound (Lasting.imported moves.rel.2.2) rfl rfl

end Frames

/-! ## The lifetime of names -/

theorem lasting_new (files : Files) (console : Console) :
    Lasting 0 (fun _ _ _ => False) (.new files console) := by
  have hnone : ∀ {h s}, ¬(Machine.new files console).holders.Owns h s :=
    fun howns => absurd (Holders.owns_lt howns) (Nat.not_lt_zero _)
  refine ⟨⟨fun ho => absurd ho hnone, fun ho => absurd ho hnone⟩, ⟨Nat.zero_lt_one, ?_⟩,
    Nat.le_refl 0, fun _ h => h.elim⟩
  rintro x ⟨h, ho, -⟩
  exact absurd ho hnone

theorem lasting_recover {m : Machine} (hm : Lasting 0 (fun _ _ _ => False) m) :
    Lasting 0 (fun _ _ _ => False) m.recover := by
  have o : m.holders.Outlives m.context.scopes 0 m.recover.holders :=
    Holders.outlives_modify (fun hl h => Scopes.binds_close.2 ⟨hl, h⟩)
      fun h => .inl (Scopes.binds_close.1 h).2
  exact ⟨hm.sound.modify _ _, hm.active.outlives o, Nat.zero_le _, fun _ h => h.elim⟩

theorem Reachable.lasting {m : Machine} (h : Reachable m) : Lasting 0 (fun _ _ _ => False) m :=
  (lifetimeContract_frames 0 fun _ _ _ => False).inv_of_reachable anyNode_language id lasting_new
    (fun _ _ => lasting_recover) h

/-- All names up to the level of the code are still bound, whichever store they are in. -/
def KeepsNames (m m' : Machine) : Prop :=
  ∀ s l x, l ≤ m.context.level → m.holders.Binds s l x → m'.holders.Binds s l x

/-- **Names live as long as their scope.** Take any machine that a session can get to, with no names
above the level of the running code in its store. After any evaluation, failed or not, there are
again no names above that level, the names at each level below it are the same as before, and none
at that level is gone. In its course, and so also in calls that use a store which belongs to a call
further up, no name up to that level is dropped from any store. -/
theorem names_live_as_long_as_scope {m : Machine} (h : Reachable m)
    (hclean : ∀ l x, m.context.level < l → ¬m.scopes.Binds l x) (fuel : Nat) (node : Node) :
    (∀ l x, m.context.level < l → ¬(eval fuel node m).machine.scopes.Binds l x) ∧
      (∀ l x, l < m.context.level →
        ((eval fuel node m).machine.scopes.Binds l x ↔ m.scopes.Binds l x)) ∧
      (∀ x, m.scopes.Binds m.context.level x →
        (eval fuel node m).machine.scopes.Binds m.context.level x) ∧
      KeepsNames m (eval fuel node m).machine ∧
      Throughout (fun _ there => KeepsNames m there) fuel (· node) m := by
  have hm := h.lasting
  -- pin all names up to the level of the code
  have hpinned : Lasting m.context.level m.holders.Binds m :=
    ⟨hm.sound, hm.active, Nat.le_refl _, fun _ h => h⟩
  have F := lifetimeContract_frames m.context.level m.holders.Binds
  obtain ⟨hscopes, -, o⟩ := (F.moves_eval hpinned fuel (anyNode node)).rel
  have hthroughout := F.throughout_eval id (fun _ _ _ h => h) hpinned fuel (anyNode node)
  have hafter : ∀ l x, (eval fuel node m).machine.scopes.Binds l x ↔
      (eval fuel node m).machine.holders.Binds m.context.scopes l x := by
    intro l x
    unfold Machine.scopes
    rw [hscopes]
    rfl
  -- a name that is not at the level of the code is no new name
  have hmade : ∀ {l x}, l ≠ m.context.level → (eval fuel node m).machine.scopes.Binds l x →
      m.scopes.Binds l x := by
    intro l x hl hx
    rcases o.makes hm.active.inRange ((hafter l x).1 hx) with hx | ⟨-, hl'⟩ | ⟨rfl, hfield⟩
    · exact hx
    · exact absurd hl' hl
    · exact hm.active.fields (o.wasField hfield hm.active.inRange)
  have hkept : ∀ {l x}, l ≤ m.context.level → m.scopes.Binds l x →
      (eval fuel node m).machine.scopes.Binds l x :=
    fun hl hx => (hafter _ _).2 (o.keeps hl hx)
  refine ⟨fun l x hl hx => hclean l x hl (hmade (by omega) hx),
    fun l x hl => ⟨hmade (by omega), hkept (by omega)⟩, fun x hx => hkept (Nat.le_refl _) hx,
    fun s l x hl hx => o.keeps hl hx,
    hthroughout.mono fun _ there hthere s l x hl hx => hthere.bound hl hx⟩

/-- A branch on a new machine, which binds a name in its scope. -/
theorem names_live_as_long_as_scope_branch :
    (∀ l x, 0 < l → ¬(Machine.new .empty (.ofBytes [])).scopes.Binds l x) ∧
      ∀ l x, 0 < l → ¬(eval 9 (.ifElse (.int 1) [.assign "x" (.int 2)] none)
        (.new .empty (.ofBytes []))).machine.scopes.Binds l x :=
  have hclean : ∀ l x, 0 < l → ¬(Machine.new .empty (.ofBytes [])).scopes.Binds l x :=
    fun l x _ => Scopes.not_binds_empty l x
  ⟨hclean, (names_live_as_long_as_scope (.idle (.new .empty (.ofBytes []))) hclean 9 _).1⟩

end BoxScript
