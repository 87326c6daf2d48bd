import BoxScript.Proofs.Shapes

/-!
# Functions at rest and at work

The locals of a function slot are a store, a stack of signals and a level, which is 0 as long as no
call of the function runs. Every call gives the level back as it was, so between runs all functions
are at rest (`Idle.atRest`).

Code works on the store and the stack of one and the same function, or on those of none, and no
function shares its stack with another one. A function at rest has no variables but the copies of
the fields of its instance. `Machine.Orderly` says so, and holds on every machine that a session can
get to, and on those on which methods and imported scripts begin.
-/

namespace BoxScript

/-! ## Levels -/

/-- A slot without its value. -/
def Slot.bare : Slot → Slot
  | field name _ access => field name .void access
  | function routine access locals => function routine access locals

/-- An instance without the values in it. -/
def Instance.bare (i : Instance) : List Slot := i.slots.map Slot.bare

namespace Instance

variable (i : Instance)

/-- The name and the value of a field do not show in what is left of an instance. -/
theorem bare_setField (name : String) (v : Value) : (i.setField name v).bare = i.bare := by
  have key : ∀ slots, (setFieldSlot name v slots).map Slot.bare = slots.map Slot.bare := by
    intro slots
    induction slots with
    | nil => rfl
    | cons slot rest ih =>
      cases slot with
      | field n old access =>
        unfold setFieldSlot
        split
        · rfl
        · rw [List.map_cons, List.map_cons, ih]
      | function routine access locals =>
        unfold setFieldSlot
        rw [List.map_cons, List.map_cons, ih]
  exact key i.slots

theorem bare_mapFields (f : String → Value → Value) : (i.mapFields f).bare = i.bare := by
  unfold bare mapFields
  rw [List.map_map]
  refine List.map_congr_left fun slot _ => ?_
  cases slot <;> rfl

theorem bare_setLevel (signature : Signature) (level : Nat) :
    (i.setLevel signature level).bare = setLevelSlot signature level i.bare := by
  have key : ∀ slots, (setLevelSlot signature level slots).map Slot.bare
      = setLevelSlot signature level (slots.map Slot.bare) := by
    intro slots
    induction slots with
    | nil => rfl
    | cons slot rest ih =>
      cases slot with
      | field n old access => exact congrArg (List.cons _) ih
      | function routine access locals =>
        rw [List.map_cons]
        simp only [Slot.bare, setLevelSlot]
        split
        · rfl
        · rw [List.map_cons, ih]
          rfl
  exact key i.slots

/-- Of two levels that are set the second one counts. -/
theorem setLevelSlot_setLevelSlot (signature : Signature) (a b : Nat) (slots : List Slot) :
    setLevelSlot signature b (setLevelSlot signature a slots) = setLevelSlot signature b slots := by
  induction slots with
  | nil => rfl
  | cons slot rest ih =>
    cases slot with
    | field n v access => exact congrArg (List.cons _) ih
    | function routine access locals =>
      by_cases h : routine.signature = signature
      · simp only [setLevelSlot, if_pos h]
      · simp only [setLevelSlot, if_neg h, ih]

variable {i}

/-- Setting the level that a function has changes nothing. -/
theorem setLevelSlot_self {signature : Signature} {routine : Routine} {access : Access}
    {locals : Locals} (h : i.method? signature = some (routine, access, locals)) :
    setLevelSlot signature locals.level i.bare = i.bare := by
  unfold method? at h
  unfold bare
  generalize i.slots = slots at h
  -- the first slot with the signature is both the one that is found and the one that is set
  induction slots with
  | nil => rfl
  | cons slot rest ih =>
    cases slot with
    | field n v a => exact congrArg (List.cons _) (ih h)
    | function r a l =>
      rw [List.findSome?_cons] at h
      by_cases hr : r.signature = signature
      · simp only [Slot.asFunction?, if_pos hr] at h
        cases h
        simp only [List.map_cons, Slot.bare, setLevelSlot, if_pos hr]
      · simp only [Slot.asFunction?, if_neg hr] at h
        simp only [List.map_cons, Slot.bare, setLevelSlot, if_neg hr]
        exact congrArg (List.cons _) (ih h)

theorem method?_setLevel {signature : Signature} {routine : Routine} {access : Access}
    {locals : Locals} (h : i.method? signature = some (routine, access, locals)) (level : Nat) :
    (i.setLevel signature level).method? signature
      = some (routine, access, { locals with level := level }) := by
  unfold method? at h ⊢
  unfold setLevel
  generalize i.slots = slots at h
  show (setLevelSlot signature level slots).findSome? _ = _
  induction slots with
  | nil => cases h
  | cons slot rest ih =>
    cases slot with
    | field n v a => exact ih h
    | function r a l =>
      rw [List.findSome?_cons] at h
      by_cases hr : r.signature = signature
      · simp only [Slot.asFunction?, if_pos hr] at h
        cases h
        simp only [setLevelSlot, if_pos hr, List.findSome?_cons, Slot.asFunction?]
      · simp only [Slot.asFunction?, if_neg hr] at h
        simp only [setLevelSlot, if_neg hr, List.findSome?_cons, Slot.asFunction?]
        exact ih h

/-- Setting a level changes that level at most. -/
theorem mem_setLevelSlot {signature : Signature} {level : Nat} {slots : List Slot}
    {routine : Routine} {access : Access} {l : Locals}
    (h : .function routine access l ∈ setLevelSlot signature level slots) :
    ∃ l₀, .function routine access l₀ ∈ slots ∧ l.scopes = l₀.scopes ∧ l.returns = l₀.returns ∧
      (l.level = l₀.level ∨ l.level = level) := by
  induction slots with
  | nil => cases h
  | cons slot rest ih =>
    -- a slot behind the first one is set or not as it would be without the first one
    have hrest : .function routine access l ∈ rest ∨
        .function routine access l ∈ setLevelSlot signature level rest → _ := fun hrest =>
      hrest.elim
        (fun hmem => (⟨l, List.mem_cons_of_mem _ hmem, rfl, rfl, .inl rfl⟩ :
          ∃ l₀, .function routine access l₀ ∈ slot :: rest ∧ l.scopes = l₀.scopes ∧
            l.returns = l₀.returns ∧ (l.level = l₀.level ∨ l.level = level)))
        fun hmem => by
          obtain ⟨l₀, hl₀, hsame⟩ := ih hmem
          exact ⟨l₀, List.mem_cons_of_mem _ hl₀, hsame⟩
    cases slot with
    | field n v a =>
      rcases List.mem_cons.1 h with heq | hmem
      · cases heq
      · exact hrest (.inr hmem)
    | function r a k =>
      unfold setLevelSlot at h
      split at h
      · rcases List.mem_cons.1 h with heq | hmem
        · cases heq
          exact ⟨k, List.mem_cons_self, rfl, rfl, .inr rfl⟩
        · exact hrest (.inl hmem)
      · rcases List.mem_cons.1 h with heq | hmem
        · cases heq
          exact ⟨l, List.mem_cons_self, rfl, rfl, .inl rfl⟩
        · exact hrest (.inr hmem)

end Instance

/-- Setting a level shows in one instance only, and there in the slot of the function. -/
theorem bare_modify_setLevel (p : Pool Instance) (h : Handle) (signature : Signature) (level : Nat)
    (k : Handle) : ((p.modify h (·.setLevel signature level)).get k).bare
      = if k = h then setLevelSlot signature level (p.get k).bare else (p.get k).bare := by
  by_cases hk : k = h
  · subst hk
    rw [if_pos rfl]
    rcases Nat.lt_or_ge k.index p.size with hrange | hrange
    · rw [Pool.get_modify_self hrange, Instance.bare_setLevel]
    · rw [Pool.get_modify_of_le hrange, Pool.get_of_le hrange]
      rfl
  · rw [if_neg hk, Pool.get_modify_of_ne (Ne.symm hk)]

/-- Changing one instance but for values changes no instance but for values. -/
theorem bare_modify {p : Pool Instance} {h : Handle} {f : Instance → Instance}
    (hf : ∀ i, (f i).bare = i.bare) (k : Handle) :
    ((p.modify h f).get k).bare = (p.get k).bare := by
  rcases Pool.get_modify_cases p h f k with ⟨-, -, hget⟩ | hget
  · rw [hget, hf]
  · rw [hget]

/-! ## Locals -/

/-- One of the functions of the instance has these locals. -/
def Machine.LocalsAt (m : Machine) (h : Handle) (l : Locals) : Prop :=
  ∃ routine access, Slot.function routine access l ∈ (m.instanceAt h).slots

/-- No function of an instance is running. -/
def Machine.AtRest (m : Machine) : Prop := ∀ h l, m.LocalsAt h l → l.level = 0

section LocalsAt

variable {m m' : Machine} {h : Handle} {l : Locals}

theorem Machine.LocalsAt.hasLocals (hl : m.LocalsAt h l) :
    (m.instanceAt h).HasLocals l.scopes l.returns := by
  obtain ⟨routine, access, hslot⟩ := hl
  exact ⟨routine, access, l.level, hslot⟩

theorem Machine.LocalsAt.owns (hl : m.LocalsAt h l) : m.holders.Owns h l.scopes :=
  ⟨l.returns, hl.hasLocals⟩

theorem Instance.HasLocals.localsAt {s r : Handle} (hl : (m.instanceAt h).HasLocals s r) :
    ∃ level, m.LocalsAt h ⟨s, r, level⟩ := by
  obtain ⟨routine, access, level, hslot⟩ := hl
  exact ⟨level, routine, access, hslot⟩

/-- The locals of a function that is found belong to the instance. -/
theorem localsAt_of_method? {signature : Signature} {routine : Routine} {access : Access}
    (h' : (m.instanceAt h).method? signature = some (routine, access, l)) : m.LocalsAt h l :=
  ⟨routine, access, (Instance.method?_eq_some h').1⟩

theorem Machine.LocalsAt.of_bare (hbare : (m'.instanceAt h).bare = (m.instanceAt h).bare)
    (hl : m'.LocalsAt h l) : m.LocalsAt h l := by
  obtain ⟨routine, access, hslot⟩ := hl
  have hmem : Slot.function routine access l ∈ (m.instanceAt h).bare := by
    rw [← hbare]
    exact List.mem_map.2 ⟨_, hslot, rfl⟩
  obtain ⟨slot, hslot, heq⟩ := List.mem_map.1 hmem
  cases slot with
  | field => cases heq
  | function r a k =>
    cases heq
    exact ⟨routine, access, hslot⟩

end LocalsAt

/-- No two functions share a store. -/
theorem Machine.Shaped.locals_eq {m : Machine} (hm : m.Shaped) {h k : Handle} {l l' : Locals}
    (hl : m.LocalsAt h l) (hl' : m.LocalsAt k l') (hs : l.scopes = l'.scopes) : h = k ∧ l = l' := by
  have hk : h = k := hm.lasting.sound.apart hl.owns (hs ▸ hl'.owns)
  subst hk
  obtain ⟨routine, access, hslot⟩ := hl
  obtain ⟨routine', access', hslot'⟩ := hl'
  cases eq_of_nodup_filterMap (hm.instances h).stores hslot hslot' rfl (congrArg some hs.symm)
  exact ⟨rfl, rfl⟩

/-- Functions are on the levels that they were on, and new ones are at rest and have new stacks. -/
structure Machine.Levels (m m' : Machine) : Prop where
  more : m.heap.returns.size ≤ m'.heap.returns.size
  old : ∀ {h}, h.index < m.heap.instances.size →
    (m'.instanceAt h).bare = (m.instanceAt h).bare
  new : ∀ {h l}, m.heap.instances.size ≤ h.index → m'.LocalsAt h l →
    l.level = 0 ∧ m.heap.returns.size ≤ l.returns.index

/-- The locals of all functions are in order, and so is the place where the code works. -/
structure Machine.Orderly (m : Machine) : Prop where
  shaped : m.Shaped
  stack : m.context.returns.index < m.heap.returns.size
  inRange : ∀ {h l}, m.LocalsAt h l → l.returns.index < m.heap.returns.size
  /-- No two functions share a stack. -/
  apart : ∀ {h k l l'}, m.LocalsAt h l → m.LocalsAt k l' → l.returns = l'.returns →
    l.scopes = l'.scopes
  /-- Code works on the store and the stack of one function. -/
  paired : ∀ {h l}, m.LocalsAt h l →
    (l.scopes = m.context.scopes ↔ l.returns = m.context.returns)
  /-- The first store belongs to no function. -/
  inner : ∀ {h l}, m.LocalsAt h l → 0 < l.scopes.index
  fields : ∀ {h l x}, m.LocalsAt h l → m.holders.Binds l.scopes 0 x →
    (m.instanceAt h).HasField x
  running : ∀ {h l}, m.LocalsAt h l → l.scopes = m.context.scopes → 0 < l.level
  resting : ∀ {h l n x}, m.LocalsAt h l → l.level = 0 → 0 < n →
    ¬m.holders.Binds l.scopes n x

/-- Everything stays in order, and functions keep their levels. -/
def orderContract : Contract where
  lax := False
  inv := Machine.Orderly
  rel m m' := shapeContract.rel m m' ∧ m.Levels m'

/-- What is new on a machine is in order. -/
structure Machine.NewOrderly (m m' : Machine) : Prop where
  inRange : ∀ {h l}, m.heap.instances.size ≤ h.index → m'.LocalsAt h l →
    l.returns.index < m'.heap.returns.size
  apart : ∀ {h k l l'}, m.heap.instances.size ≤ h.index → m.heap.instances.size ≤ k.index →
    m'.LocalsAt h l → m'.LocalsAt k l' → l.returns = l'.returns → l.scopes = l'.scopes
  fields : ∀ {h l x}, m.heap.instances.size ≤ h.index → m'.LocalsAt h l →
    m'.holders.Binds l.scopes 0 x → (m'.instanceAt h).HasField x
  resting : ∀ {h l n x}, m.heap.instances.size ≤ h.index → m'.LocalsAt h l → 0 < n →
    ¬m'.holders.Binds l.scopes n x

namespace Machine.Orderly

variable {m m' : Machine}

theorem shape (moves : orderContract.Moves m m') : shapeContract.Moves m m' :=
  ⟨⟨moves.inv.shaped, moves.rel.1⟩, moves.restored⟩

theorem store_lt (hm : m.Orderly) {h : Handle} {l : Locals} (hl : m.LocalsAt h l) :
    l.scopes.index < m.heap.scopes.size :=
  hm.shaped.lasting.sound.inRange hl.owns

/-- Global variables of a function are fields after a step if they were fields before it. -/
theorem hasField_of_step (hm : m.Orderly) (hshape : shapeContract.Allows m m') {h : Handle}
    {l : Locals} {x : String} (hl : m.LocalsAt h l) (hh : h.index < m.heap.instances.size)
    (hx : m'.holders.Binds l.scopes 0 x) : (m'.instanceAt h).HasField x := by
  obtain ⟨-, -, o⟩ := hshape.rel.1
  have howns := hl.owns
  have hfield : (m.instanceAt h).HasField x := by
    rcases o.makes (hm.store_lt hl) hx with hx | ⟨heq, hzero⟩ | ⟨-, hfield⟩
    · exact hm.fields hl hx
    · rw [heq] at howns
      have hraised := hm.shaped.raised howns
      omega
    · obtain ⟨k, hk, hfield⟩ := o.wasField hfield (hm.store_lt hl)
      rwa [hm.shaped.lasting.sound.apart hk howns] at hfield
  exact hfield.of_outline (o.outline hh)

/-- A step keeps everything in order if it does so with what is new. -/
theorem allows (hm : m.Orderly) (hshape : shapeContract.Allows m m')
    (hcontext : m'.context.returns = m.context.returns) (hlevels : m.Levels m')
    (hnew : m.NewOrderly m') : orderContract.Allows m m' := by
  obtain ⟨hscopes, hlevel, o⟩ := hshape.rel.1
  have hactive := hm.shaped.lasting.active.inRange
  -- an old function has old locals, and a new one has new ones
  have hold : ∀ {h l}, h.index < m.heap.instances.size → m'.LocalsAt h l → m.LocalsAt h l :=
    fun hh hl => hl.of_bare (hlevels.old hh)
  have hfresh : ∀ {h l}, m.heap.instances.size ≤ h.index → m'.LocalsAt h l →
      m.heap.scopes.size ≤ l.scopes.index := fun hh hl => o.fresh hh hl.owns
  refine ⟨?_, hshape.rel, hlevels⟩
  constructor
  case shaped => exact hshape.inv
  case stack =>
    rw [hcontext]
    exact Nat.lt_of_lt_of_le hm.stack hlevels.more
  case inRange =>
    intro h l hl
    rcases Nat.lt_or_ge h.index m.heap.instances.size with hh | hh
    · exact Nat.lt_of_lt_of_le (hm.inRange (hold hh hl)) hlevels.more
    · exact hnew.inRange hh hl
  case apart =>
    intro h k l l' hl hl' heq
    rcases Nat.lt_or_ge h.index m.heap.instances.size with hh | hh <;>
      rcases Nat.lt_or_ge k.index m.heap.instances.size with hk | hk
    · exact hm.apart (hold hh hl) (hold hk hl') heq
    · have hlow := hm.inRange (hold hh hl)
      have hhigh := (hlevels.new hk hl').2
      rw [heq] at hlow
      omega
    · have hlow := hm.inRange (hold hk hl')
      have hhigh := (hlevels.new hh hl).2
      rw [heq] at hhigh
      omega
    · exact hnew.apart hh hk hl hl' heq
  case paired =>
    intro h l hl
    rw [hcontext, hscopes]
    rcases Nat.lt_or_ge h.index m.heap.instances.size with hh | hh
    · exact hm.paired (hold hh hl)
    -- new locals are not those of the running code
    · have hhigh := hfresh hh hl
      have hhigh' := (hlevels.new hh hl).2
      have hstack := hm.stack
      constructor
      · intro heq
        rw [heq] at hhigh
        exact absurd hactive (Nat.not_lt.2 hhigh)
      · intro heq
        rw [heq] at hhigh'
        omega
  case inner =>
    intro h l hl
    rcases Nat.lt_or_ge h.index m.heap.instances.size with hh | hh
    · exact hm.inner (hold hh hl)
    · exact Nat.lt_of_lt_of_le (Nat.zero_lt_of_lt hactive) (hfresh hh hl)
  case fields =>
    intro h l x hl hx
    rcases Nat.lt_or_ge h.index m.heap.instances.size with hh | hh
    · exact hm.hasField_of_step hshape (hold hh hl) hh hx
    · exact hnew.fields hh hl hx
  case running =>
    intro h l hl heq
    rw [hscopes] at heq
    rcases Nat.lt_or_ge h.index m.heap.instances.size with hh | hh
    · exact hm.running (hold hh hl) heq
    · have hhigh := hfresh hh hl
      rw [heq] at hhigh
      exact absurd hactive (Nat.not_lt.2 hhigh)
  case resting =>
    intro h l n x hl hzero hn hx
    rcases Nat.lt_or_ge h.index m.heap.instances.size with hh | hh
    · have hl₀ := hold hh hl
      rcases o.makes (hm.store_lt hl₀) hx with hx | ⟨heq, -⟩ | ⟨hn', -⟩
      · exact hm.resting hl₀ hzero hn hx
      -- the function whose store the code works on is not at rest
      · have hrunning := hm.running hl₀ heq
        omega
      · omega
    · exact hnew.resting hh hl hn hx

/-- A step that changes instances in their values only. -/
theorem untouched (hm : m.Orderly) (hshape : shapeContract.Allows m m')
    (hcontext : m'.context.returns = m.context.returns)
    (hsize : m.heap.returns.size ≤ m'.heap.returns.size)
    (hbare : ∀ h, (m'.instanceAt h).bare = (m.instanceAt h).bare) :
    orderContract.Allows m m' := by
  have hnone : ∀ {h l}, m.heap.instances.size ≤ h.index → ¬m'.LocalsAt h l := by
    intro h l hh hl
    have hlt : h.index < m.heap.instances.size := Holders.owns_lt (hl.of_bare (hbare h)).owns
    omega
  refine hm.allows hshape hcontext ⟨hsize, fun _ => hbare _, fun hh hl => absurd hl (hnone hh)⟩ ?_
  constructor <;> intros <;> exact absurd ‹_› (hnone ‹_›)

/-- The way out of something: what is new was made inside. -/
theorem leaving (hm : m.Orderly) {entered left : Machine} (hshape : shapeContract.Allows m m')
    (moves : orderContract.Moves entered left)
    (hcontext : m'.context.returns = m.context.returns)
    (hentered : entered.heap.instances.size = m.heap.instances.size ∧
      m.heap.returns.size ≤ entered.heap.returns.size)
    (hold : ∀ {h}, h.index < m.heap.instances.size →
      (m'.instanceAt h).bare = (m.instanceAt h).bare)
    (hnew : ∀ {h}, m.heap.instances.size ≤ h.index → m'.instanceAt h = left.instanceAt h)
    (hreturns : m'.heap.returns.size = left.heap.returns.size)
    (hstores : ∀ {s l x}, m.heap.scopes.size ≤ s.index → m'.holders.Binds s l x →
      left.holders.Binds s l x) : orderContract.Allows m m' := by
  obtain ⟨hsize, hmore⟩ := hentered
  obtain ⟨-, hlevels⟩ := moves.rel
  obtain ⟨-, -, o⟩ := hshape.rel.1
  have hleft : ∀ {h l}, m.heap.instances.size ≤ h.index → m'.LocalsAt h l → left.LocalsAt h l := by
    intro h l hh hl
    unfold Machine.LocalsAt at hl ⊢
    rwa [hnew hh] at hl
  have hinside : ∀ {h l}, m.heap.instances.size ≤ h.index → m'.LocalsAt h l →
      l.level = 0 ∧ entered.heap.returns.size ≤ l.returns.index :=
    fun hh hl => hlevels.new (by omega) (hleft hh hl)
  have hfresh : ∀ {h l}, m.heap.instances.size ≤ h.index → m'.LocalsAt h l →
      m.heap.scopes.size ≤ l.scopes.index := fun hh hl => o.fresh hh hl.owns
  refine hm.allows hshape hcontext ⟨?_, hold, fun hh hl => ?_⟩ ?_
  · rw [hreturns]
    exact Nat.le_trans hmore hlevels.more
  · exact ⟨(hinside hh hl).1, Nat.le_trans hmore (hinside hh hl).2⟩
  constructor
  case inRange =>
    intro h l hh hl
    rw [hreturns]
    exact moves.inv.inRange (hleft hh hl)
  case apart =>
    intro h k l l' hh hk hl hl' heq
    exact moves.inv.apart (hleft hh hl) (hleft hk hl') heq
  case fields =>
    intro h l x hh hl hx
    rw [hnew hh]
    exact moves.inv.fields (hleft hh hl) (hstores (hfresh hh hl) hx)
  case resting =>
    intro h l n x hh hl hn hx
    exact moves.inv.resting (hleft hh hl) (hinside hh hl).1 hn (hstores (hfresh hh hl) hx)

end Machine.Orderly

/-- The functions of a new instance get the next store and the next stack each, and are at rest. -/
theorem makeMethodsFrom_locals {made : List Slot} {specs : List MethodSpec} {heap : Heap}
    {routine : Routine} {access : Access} {l : Locals}
    (h : .function routine access l ∈ (makeMethodsFrom made specs heap).1) :
    .function routine access l ∈ made ∨
      ∃ k, l = ⟨⟨heap.scopes.size + k⟩, ⟨heap.returns.size + k⟩, 0⟩ := by
  induction specs generalizing made heap with
  | nil => exact .inl (List.mem_reverse.1 h)
  | cons f specs ih =>
    rcases ih h with hmem | ⟨k, rfl⟩
    · rcases List.mem_cons.1 hmem with heq | hmem
      · cases heq
        exact .inr ⟨0, rfl⟩
      · exact .inl hmem
    · refine .inr ⟨k + 1, ?_⟩
      rw [Pool.size_push, Pool.size_push, Nat.add_assoc, Nat.add_assoc, Nat.add_comm 1 k]

theorem Machine.Levels.refl (m : Machine) : m.Levels m where
  more := Nat.le_refl _
  old _ := rfl
  new hh hl := absurd (Holders.owns_lt hl.owns) (Nat.not_lt.2 hh)

/-- Functions that are at rest stay at rest. -/
theorem Machine.AtRest.of_levels {m m' : Machine} (hrest : m.AtRest) (levels : m.Levels m') :
    m'.AtRest := by
  intro h l hl
  rcases Nat.lt_or_ge h.index m.heap.instances.size with hh | hh
  · exact hrest h l (hl.of_bare (levels.old hh))
  · exact (levels.new hh hl).1

/-- Levels that last through each of two steps last through both. -/
theorem Machine.Levels.trans {a b c : Machine}
    (hsize : a.heap.instances.size ≤ b.heap.instances.size) (h : a.Levels b) (h' : b.Levels c) :
    a.Levels c where
  more := Nat.le_trans h.more h'.more
  old hh := (h'.old (Nat.lt_of_lt_of_le hh hsize)).trans (h.old hh)
  new := by
    intro k l hk hl
    rcases Nat.lt_or_ge k.index b.heap.instances.size with hlt | hge
    · exact h.new hk (hl.of_bare (h'.old hlt))
    · exact ⟨(h'.new hge hl).1, Nat.le_trans h.more (h'.new hge hl).2⟩

namespace Machine.Orderly

variable {m m' : Machine}

/-- A new instance puts its functions on stores and stacks that nothing else has. -/
theorem allocate (hm : m.Orderly) {d : BoxDef} {fields : List Slot}
    (hfields : FieldSlots fields d.fields)
    (hshape : shapeContract.Allows m (allocate d fields m).machine) :
    orderContract.Allows m (allocate d fields m).machine := by
  obtain ⟨grown, hslots⟩ := makeMethodsFrom_grown [] d.methods m.heap
  have hreturns : (BoxScript.allocate d fields m).machine.heap.returns
      = (makeMethodsFrom [] d.methods m.heap).2.returns := rfl
  have hstores : (BoxScript.allocate d fields m).machine.heap.scopes
      = (makeMethodsFrom [] d.methods m.heap).2.scopes := rfl
  -- only the new instance has new functions, each with the next store and the next stack
  have hnew : ∀ {h l}, m.heap.instances.size ≤ h.index →
      (BoxScript.allocate d fields m).machine.LocalsAt h l →
      l.returns.index < (BoxScript.allocate d fields m).machine.heap.returns.size ∧
        ∃ k, l = ⟨⟨m.heap.scopes.size + k⟩, ⟨m.heap.returns.size + k⟩, 0⟩ := by
    rintro h l hh ⟨routine, access, hslot⟩
    rw [instanceAt_allocate] at hslot
    split at hslot
    · rcases List.mem_append.1 hslot with hslot | hslot
      · exact absurd hslot hfields.not_function
      · have hlocals := (makeMethodsFrom_locals hslot).resolve_left List.not_mem_nil
        refine ⟨?_, hlocals⟩
        obtain ⟨f, -, locals, heq, -, -, -, hlt⟩ := (hslots _ hslot).resolve_left List.not_mem_nil
        cases heq
        exact hlt
    · exact absurd (Holders.owns_lt (LocalsAt.owns (m := m) ⟨routine, access, hslot⟩))
        (Nat.not_lt.2 hh)
  -- its stores begin without a name, so that there is nothing for fields and levels to agree on
  have hempty : ∀ {k n x}, ¬(BoxScript.allocate d fields m).machine.holders.Binds
      ⟨m.heap.scopes.size + k⟩ n x := by
    intro k n x hx
    change (((makeMethodsFrom [] d.methods m.heap).2.scopes.get _).get? n x).isSome = true at hx
    rw [grown.scopes, Pool.get_of_le (Nat.le_add_right _ _)] at hx
    exact Scopes.not_binds_empty n x hx
  refine hm.allows hshape rfl ⟨grown.moreReturns, fun {h} hh => ?_, fun hh hl => ?_⟩ ?_
  · rw [instanceAt_allocate, if_neg]
    rintro rfl
    exact Nat.lt_irrefl _ hh
  · obtain ⟨-, k, rfl⟩ := hnew hh hl
    exact ⟨rfl, Nat.le_add_right _ _⟩
  constructor
  case inRange => exact fun hh hl => (hnew hh hl).1
  case apart =>
    intro h k l l' hh hk hl hl' heq
    obtain ⟨-, n, rfl⟩ := hnew hh hl
    obtain ⟨-, n', rfl⟩ := hnew hk hl'
    injection heq with heq
    have hn : n = n' := by omega
    rw [hn]
  case fields =>
    intro h l x hh hl hx
    obtain ⟨-, n, rfl⟩ := hnew hh hl
    exact absurd hx hempty
  case resting =>
    intro h l n x hh hl _ hx
    obtain ⟨-, k, rfl⟩ := hnew hh hl
    exact hempty hx

section Methods

variable {h : Handle} {signature : Signature} {routine : Routine} {access : Access}
  {locals : Locals}

/-- The way into a method sets a level and leaves the locals in their cells. -/
theorem localsAt_enterMethod {active : Nat} {k : Handle} {l : Locals}
    (hl : (enterMethod h signature locals active m).LocalsAt k l) :
    ∃ l₀, m.LocalsAt k l₀ ∧ l.scopes = l₀.scopes ∧ l.returns = l₀.returns ∧
      (l.level = l₀.level ∨ l.level = active) := by
  obtain ⟨r, a, hslot⟩ := hl
  change _ ∈ ((m.heap.instances.modify h _).get k).slots at hslot
  rcases Pool.get_modify_cases m.heap.instances h (·.setLevel signature active) k with
    ⟨-, -, hget⟩ | hget <;> rw [hget] at hslot
  · obtain ⟨l₀, hl₀, hsame⟩ := Instance.mem_setLevelSlot hslot
    exact ⟨l₀, ⟨r, a, hl₀⟩, hsame⟩
  · exact ⟨l, ⟨r, a, hslot⟩, rfl, rfl, .inl rfl⟩

/-- What stores bind after the way into a method, they have bound before, or it is a field of the
owner. -/
theorem binds_of_enterMethod
    (hfound : (m.instanceAt h).method? signature = some (routine, access, locals))
    {active n : Nat} {s : Handle} {x : String} (hs : s.index < m.heap.scopes.size)
    (hx : (enterMethod h signature locals active m).holders.Binds s n x) :
    m.holders.Binds s n x ∨ (n = 0 ∧ m.holders.IsField s x) := by
  have o := outlives_enterMethod hfound active m.context.scopes (n + 1)
  rcases o.makes hs hx with hx | ⟨-, hn⟩ | ⟨hn, hfield⟩
  · exact .inl hx
  · omega
  · exact .inr ⟨hn, o.wasField hfield hs⟩

/-- The function that is entered is raised. -/
theorem raised_enterMethod
    (hfound : (m.instanceAt h).method? signature = some (routine, access, locals)) (active : Nat) :
    (enterMethod h signature locals active m).LocalsAt h { locals with level := active } := by
  have hh : h.index < m.heap.instances.size :=
    Holders.owns_lt (localsAt_of_method? hfound).owns
  have hlevel : ((m.heap.instances.modify h (·.setLevel signature active)).get h).method? signature
      = some (routine, access, { locals with level := active }) := by
    rw [Pool.get_modify_self hh]
    exact Instance.method?_setLevel hfound _
  exact localsAt_of_method? hlevel

/-- On the way into a method only one store changes and only one level. -/
theorem enterMethod (hm : m.Orderly)
    (hfound : (m.instanceAt h).method? signature = some (routine, access, locals)) :
    (enterMethod h signature locals (max m.context.level locals.level + 1) m).Orderly := by
  have hshaped := shape_frames.methodIn hm.shaped hfound
  have hlocals := localsAt_of_method? hfound
  constructor
  case shaped => exact hshaped
  case stack => exact hm.inRange hlocals
  case inRange =>
    intro k l hl
    obtain ⟨l₀, hl₀, -, hreturns, -⟩ := localsAt_enterMethod hl
    rw [hreturns]
    exact hm.inRange hl₀
  case apart =>
    intro k k' l l' hl hl' heq
    obtain ⟨l₀, hl₀, hscopes, hreturns, -⟩ := localsAt_enterMethod hl
    obtain ⟨l₀', hl₀', hscopes', hreturns', -⟩ := localsAt_enterMethod hl'
    rw [hscopes, hscopes']
    exact hm.apart hl₀ hl₀' (by rw [← hreturns, ← hreturns', heq])
  case paired =>
    intro k l hl
    obtain ⟨l₀, hl₀, hscopes, hreturns, -⟩ := localsAt_enterMethod hl
    show l.scopes = locals.scopes ↔ l.returns = locals.returns
    rw [hscopes, hreturns]
    refine ⟨fun heq => ?_, fun heq => hm.apart hl₀ hlocals heq⟩
    rw [(hm.shaped.locals_eq hl₀ hlocals heq).2]
  case inner =>
    intro k l hl
    obtain ⟨l₀, hl₀, hscopes, -, -⟩ := localsAt_enterMethod hl
    rw [hscopes]
    exact hm.inner hl₀
  case fields =>
    intro k l x hl hx
    obtain ⟨l₀, hl₀, hscopes, -, -⟩ := localsAt_enterMethod hl
    rw [hscopes] at hx
    -- a name that was not there before is a field of an instance that owns the store, which is this
    -- one
    have hfield : (m.instanceAt k).HasField x := by
      rcases binds_of_enterMethod hfound (hm.store_lt hl₀) hx with hx | ⟨-, k', howns, hfield⟩
      · exact hm.fields hl₀ hx
      · rwa [hm.shaped.lasting.sound.apart howns hl₀.owns] at hfield
    exact hfield.of_outline (outline_modify (fun i => i.outline_setLevel signature _) k)
  case running =>
    intro k l hl heq
    rw [(hshaped.locals_eq hl (raised_enterMethod hfound _) heq).2]
    exact Nat.succ_pos _
  case resting =>
    intro k l n x hl hzero hn hx
    obtain ⟨l₀, hl₀, hscopes, -, hlevel⟩ := localsAt_enterMethod hl
    rw [hscopes] at hx
    rcases binds_of_enterMethod hfound (hm.store_lt hl₀) hx with hx | ⟨hzero', -⟩
    · exact hm.resting hl₀ (by omega) hn hx
    · omega

/-- On the way out of a method its level and its store are as they were on the way in. -/
theorem leaveMethod (hm : m.Orderly)
    (hfound : (m.instanceAt h).method? signature = some (routine, access, locals))
    (moves : orderContract.Moves
      (BoxScript.enterMethod h signature locals (max m.context.level locals.level + 1) m) m') :
    orderContract.Allows m (leaveMethod h signature locals m.context
      (max m.context.level locals.level) locals.level m') := by
  obtain ⟨-, hlevels⟩ := moves.rel
  have hh : h.index < m.heap.instances.size :=
    Holders.owns_lt (localsAt_of_method? hfound).owns
  refine hm.leaving (shape_frames.methodOut hm.shaped hfound (shape moves)) moves rfl
    ⟨Pool.size_modify _ _ _, Nat.le_refl _⟩ (fun {k} hk => ?_) (fun {k} hk => ?_) rfl
    fun {s n x} hs hx => ?_
  · -- the level is set on the way in and set back on the way out
    have hk' : k.index < (BoxScript.enterMethod h signature locals
        (max m.context.level locals.level + 1) m).heap.instances.size := by
      show k.index < (Pool.modify _ _ _).size
      rwa [Pool.size_modify]
    have hin := hlevels.old hk'
    change _ = ((m.heap.instances.modify h (·.setLevel signature _)).get k).bare at hin
    rw [bare_modify_setLevel] at hin
    refine (bare_modify (fun i => i.bare_mapFields _) k).trans ?_
    show Instance.bare ((m'.heap.instances.modify h (·.setLevel signature _)).get k) = _
    rw [bare_modify_setLevel]
    change (m'.heap.instances.get k).bare = _ at hin
    rw [hin]
    by_cases heq : k = h
    · subst heq
      rw [if_pos rfl, if_pos rfl, Instance.setLevelSlot_setLevelSlot]
      exact Instance.setLevelSlot_self hfound
    · rw [if_neg heq, if_neg heq]
      rfl
  -- an instance of the method itself is not the one that the method was called on
  · have hne : h ≠ k := by
      rintro rfl
      omega
    exact (Pool.get_modify_of_ne hne _).trans (Pool.get_modify_of_ne hne _)
  · change ((m'.heap.scopes.modify locals.scopes _).get s).Binds n x at hx
    rcases Pool.get_modify_cases m'.heap.scopes locals.scopes
      (·.close (max m.context.level locals.level)) s with ⟨-, -, hget⟩ | hget <;> rw [hget] at hx
    · exact (Scopes.binds_close.1 hx).2
    · exact hx

end Methods

theorem forked (hm : m.Orderly) : m.forked.Orderly := by
  have hnames : ∀ {k l n x}, m.LocalsAt k l → m.forked.holders.Binds l.scopes n x →
      m.holders.Binds l.scopes n x := by
    intro k l n x hl hx
    change ((m.heap.scopes.push _).get l.scopes).Binds n x at hx
    rwa [Pool.get_push_of_lt (hm.store_lt hl)] at hx
  -- the copies belong to no function
  have hne : ∀ {k l}, m.LocalsAt k l → l.scopes ≠ m.heap.scopes.next := by
    intro k l hl heq
    have hlt := hm.store_lt hl
    rw [heq] at hlt
    exact Nat.lt_irrefl _ hlt
  constructor
  case shaped => exact hm.shaped.forked
  case stack =>
    show m.heap.returns.size < (m.heap.returns.push _).size
    rw [Pool.size_push]
    omega
  case inRange => exact fun hl => Nat.lt_of_lt_of_le (hm.inRange hl) m.size_returns_forked
  case apart => exact hm.apart
  case paired =>
    intro k l hl
    refine iff_of_false (hne hl) fun heq => ?_
    have hlt := hm.inRange (h := k) (l := l) hl
    rw [show l.returns = m.heap.returns.next from heq] at hlt
    exact Nat.lt_irrefl _ hlt
  case inner => exact hm.inner
  case fields => exact fun hl hx => hm.fields hl (hnames hl hx)
  case running => exact fun hl heq => absurd heq (hne hl)
  case resting => exact fun hl hzero hn hx => hm.resting hl hzero hn (hnames hl hx)

theorem merged (hm : m.Orderly) (moves : orderContract.Moves m.forked m') :
    orderContract.Allows m (m.merged m') := by
  obtain ⟨-, hlevels⟩ := moves.rel
  refine hm.leaving (shape_frames.merge hm.shaped (shape moves)) moves rfl
    ⟨rfl, m.size_returns_forked⟩ hlevels.old (fun _ => rfl) (Machine.Formed.size_mergeCell _ _ _ _)
    fun {s n x} hs hx => ?_
  -- a new store is not the one that the names of the script are added to
  have hne : m.context.scopes ≠ s := by
    rintro rfl
    exact absurd hm.shaped.lasting.active.inRange (Nat.not_lt.2 hs)
  change ((Context.mergeCell Scopes.absorb _ _ m'.heap.scopes).get s).Binds n x at hx
  unfold Context.mergeCell at hx
  split at hx
  · exact hx
  · rwa [Pool.get_modify_of_ne hne] at hx

end Machine.Orderly

/-- No step puts the locals of functions out of order. -/
theorem order_frames : orderContract.Frames AnyNode AnyNode where
  everywhere := ⟨fun _ _ => trivial, fun _ _ => trivial⟩
  fragment := anyNode_language.toFragment
  scripts {m} _ := anyNode_language.scriptsIn m
  code {m} _ := m.codeIn_any
  refl hm := ⟨shape_frames.refl hm.shaped, .refl _⟩
  trans h h' := ⟨shape_frames.trans h.1 h'.1, h.2.trans h.1.1.2.2.instances h'.2⟩
  console hc hm := hm.untouched (shape_frames.console hc hm.shaped) rfl (Nat.le_refl _) fun _ => rfl
  assign value v _ moves := moves.inv.untouched
    (shape_frames.assign value v trivial (Machine.Orderly.shape moves)) rfl (Nat.le_refl _)
    fun _ => rfl
  declare _ hr hm := hm.untouched (shape_frames.declare trivial hr hm.shaped) rfl (Nat.le_refl _)
    fun _ => rfl
  register _ accepted hd hm := hm.untouched
    (shape_frames.register trivial accepted hd hm.shaped) rfl (Nat.le_refl _) fun _ => rfl
  extend name _ hr hm := hm.untouched (shape_frames.extend name hr hm.shaped) rfl (Nat.le_refl _)
    fun _ => rfl
  allocate hm hknown hd hfields hm' := hm'.allocate hfields
    (shape_frames.allocate hm.shaped hknown hd hfields hm'.shaped)
  setField h field v hm := hm.untouched (shape_frames.setField h field v hm.shaped) rfl
    (Nat.le_refl _) (bare_modify fun i => i.bare_setField field v)
  -- what a definition is called has nothing to do with the locals of functions
  linkIn h hm :=
    { shaped := shape_frames.linkIn h hm.shaped
      stack := hm.stack
      inRange := hm.inRange
      apart := hm.apart
      paired := hm.paired
      inner := hm.inner
      fields := hm.fields
      running := hm.running
      resting := hm.resting }
  linkOut h hm moves := hm.leaving
    (shape_frames.linkOut h hm.shaped (Machine.Orderly.shape moves)) moves
    (congrArg Context.returns moves.restored.context) ⟨rfl, Nat.le_refl _⟩ moves.rel.2.old
    (fun _ => rfl) rfl fun _ h => h
  linkRefused hm := hm.untouched (shape_frames.linkRefused hm.shaped) rfl (Nat.le_refl _)
    fun _ => rfl
  push v hm := hm.untouched (shape_frames.push v hm.shaped) rfl
    (Nat.le_of_eq (Pool.size_modify _ _ _).symm) fun _ => rfl
  dropSignal hm := hm.untouched (shape_frames.dropSignal hm.shaped) rfl
    (Nat.le_of_eq (Pool.size_modify _ _ _).symm) fun _ => rfl
  bindParams params args hm := hm.untouched (shape_frames.bindParams params args hm.shaped) rfl
    (Nat.le_refl _) fun _ => rfl
  scopeIn c hm := { hm with shaped := shape_frames.scopeIn c hm.shaped }
  scopeOut := by
    intro m m' c hm moves
    have hreturns := congrArg Context.returns moves.restored.context
    refine hm.leaving (shape_frames.scopeOut c hm.shaped (Machine.Orderly.shape moves)) moves
      hreturns ⟨rfl, Nat.le_refl _⟩ moves.rel.2.old
      (fun _ => rfl) rfl fun {s n x} _ hx => ?_
    change ((m'.heap.scopes.modify m'.context.scopes _).get s).Binds n x at hx
    rcases Pool.get_modify_cases m'.heap.scopes m'.context.scopes
      (·.close m.context.level) s with ⟨-, -, hget⟩ | hget <;> rw [hget] at hx
    · exact (Scopes.binds_close.1 hx).2
    · exact hx
  clauseIn hm := { hm with shaped := shape_frames.clauseIn hm.shaped }
  clauseOut hm moves :=
    have hreturns := congrArg Context.returns moves.restored.context
    hm.leaving (shape_frames.clauseOut hm.shaped (Machine.Orderly.shape moves)) moves hreturns
      ⟨rfl, Nat.le_refl _⟩ moves.rel.2.old (fun _ => rfl) rfl fun _ h => h
  callIn hm hlt := { hm with shaped := shape_frames.callIn hm.shaped hlt }
  callOut hm hlt moves := hm.leaving
    (shape_frames.callOut hm.shaped hlt (Machine.Orderly.shape moves)) moves
    (congrArg Context.returns moves.restored.context) ⟨rfl, Nat.le_refl _⟩ moves.rel.2.old
    (fun _ => rfl) rfl fun _ h => h
  methodIn hm hfound := hm.enterMethod hfound
  methodOut hm hfound moves := hm.leaveMethod hfound moves
  fork hm := hm.forked
  merge hm moves := hm.merged moves
  discard hchained hm moves := hm.leaving
    (shape_frames.discard hchained hm.shaped (Machine.Orderly.shape moves)) moves rfl
    ⟨rfl, Machine.size_returns_forked _⟩ moves.rel.2.old (fun _ => rfl) rfl fun _ h => h

/-! ## Sessions -/

/-- Before anything has run there are no functions to have locals. -/
theorem not_localsAt_new {files : Files} {console : Console} {h : Handle} {l : Locals} :
    ¬(Machine.new files console).LocalsAt h l :=
  fun hl => not_hasLocals_new hl.hasLocals

theorem orderly_new (files : Files) (console : Console) : (Machine.new files console).Orderly where
  shaped := shaped_new files console
  stack := Nat.zero_lt_one
  inRange hl := absurd hl not_localsAt_new
  apart hl := absurd hl not_localsAt_new
  paired hl := absurd hl not_localsAt_new
  inner hl := absurd hl not_localsAt_new
  fields hl := absurd hl not_localsAt_new
  running hl := absurd hl not_localsAt_new
  resting hl := absurd hl not_localsAt_new

theorem Machine.Orderly.recover {m : Machine} (hm : m.Orderly) (hshaped : m.recover.Shaped) :
    m.recover.Orderly := by
  have hnames : ∀ {s n x}, m.recover.holders.Binds s n x → m.holders.Binds s n x := by
    intro s n x hx
    change ((m.heap.scopes.modify m.context.scopes _).get s).Binds n x at hx
    rcases Pool.get_modify_cases m.heap.scopes m.context.scopes (·.close 0) s with
      ⟨-, -, hget⟩ | hget <;> rw [hget] at hx
    · exact (Scopes.binds_close.1 hx).2
    · exact hx
  have hsize : m.recover.heap.returns.size = m.heap.returns.size := Pool.size_modify _ _ _
  exact
    { shaped := hshaped
      stack := hsize ▸ hm.stack
      inRange := fun hl => hsize ▸ hm.inRange hl
      apart := hm.apart
      paired := hm.paired
      inner := hm.inner
      fields := fun hl hx => hm.fields hl (hnames hx)
      running := hm.running
      resting := fun hl hzero hn hx => hm.resting hl hzero hn (hnames hx) }

theorem Reachable.orderly {m : Machine} (h : Reachable m) : m.Orderly :=
  order_frames.inv_of_reachable anyNode_language id orderly_new
    (fun _ hidle hm => hm.recover (Reachable.shaped (.idle (.recover hidle)))) h

/-- The code works on the store of no function, but on the session's own or on the copy that an
imported script has of it. -/
def Machine.Outer (m : Machine) : Prop := ∀ k, ¬m.holders.Owns k m.context.scopes

/-- The first store is the session's own. -/
theorem Machine.Orderly.outer {m : Machine} (hm : m.Orderly) (h : m.context.scopes = ⟨0⟩) :
    m.Outer := by
  rintro k ⟨r, hl⟩
  obtain ⟨level, hlocals⟩ := hl.localsAt
  have hpos := hm.inner hlocals
  rw [h] at hpos
  exact Nat.lt_irrefl 0 hpos

/-- Between runs all functions are at rest. -/
theorem Idle.atRest {m : Machine} (h : Idle m) : m.AtRest := by
  induction h with
  | new => exact fun _ _ hl => absurd hl not_localsAt_new
  | recover _ ih => exact ih
  | run h hrun _ ih =>
    have hm := Reachable.orderly (.idle h)
    exact Machine.AtRest.of_levels ih (order_frames.moves_runWith anyNode_language hm hrun).rel.2

/-! ## Between the steps of a statement -/

/-- The locals of functions are in order in the middle of a run too. -/
theorem Attained.orderly {m : Machine} (h : Attained m) : m.Orderly :=
  order_frames.inv_of_attained (fun _ => trivial) Reachable.orderly h

/-- While no function runs on a machine, none does after an evaluation either. -/
theorem Machine.AtRest.eval {m : Machine} (hm : m.Orderly) (hrest : m.AtRest) (fuel : Nat)
    (node : Node) : (eval fuel node m).machine.AtRest :=
  hrest.of_levels (order_frames.moves_eval hm fuel (anyNode node)).rel.2

end BoxScript
