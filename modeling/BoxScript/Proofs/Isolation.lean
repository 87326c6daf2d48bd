import BoxScript.Proofs.Pins
import BoxScript.Proofs.Signals

/-!
# Isolated instances

Code gets hold of an instance through its variables, through the fields of instances that it has
got hold of, through a definition with a fixed value, through a signal, or by creating it. Let `R`
be a set of instances that is closed under all of these. Then whatever code does that starts with
such instances only, it never gets hold of another one (`confined_rules`), and so it changes none.

For a call of a method that is made while no function runs, the smallest such set is what can be
reached from the instance, the arguments and the definitions (`Machine.Reaches`). The variables of
functions at rest do not count: a call starts with the fields in their place. Signals do, if an
earlier call has left some (`call_leaves_others`).
-/

namespace BoxScript

variable {R : Handle → Prop}

/-! ## What cells refer to -/

namespace Scopes

variable {s other : Scopes} {k : Nat}

/-- The variables from a level on refer to instances in `R` only. -/
def InFrom (R : Handle → Prop) (k : Nat) (s : Scopes) : Prop :=
  ∀ l x v, k ≤ l → s.get? l x = some v → v.Within R

theorem inFrom_of_not_binds (h : ∀ l x, k ≤ l → ¬s.Binds l x) : s.InFrom R k :=
  fun l x v hl hv => absurd (Option.isSome_iff_exists.2 ⟨v, hv⟩) (h l x hl)

theorem InFrom.above (hs : s.InFrom R 0) (k : Nat) : s.InFrom R k :=
  fun l x v _ hv => hs l x v (Nat.zero_le l) hv

theorem inFrom_empty : InFrom R k empty := inFrom_of_not_binds fun l x _ => not_binds_empty l x

theorem InFrom.bind (hs : s.InFrom R k) {v : Value} (hv : v.Within R) (level : Nat)
    (name : String) : (s.bind level name v).InFrom R k := by
  intro l x w hl hw
  rw [get?_bind] at hw
  split at hw
  · cases hw
    exact hv
  · exact hs l x w hl hw

theorem InFrom.set (hs : s.InFrom R k) {v : Value} (hv : v.Within R) (name : String) (level : Nat)
    (asParam : Bool) : (s.set name v level asParam).InFrom R k := by
  unfold Scopes.set
  split <;> exact hs.bind hv _ _

theorem InFrom.bindParams (hs : s.InFrom R k) (level : Nat) (params : List String)
    {args : List Value} (hargs : ∀ v ∈ args, v.Within R) :
    (bindParams level params args s).InFrom R k := by
  induction params generalizing args s with
  | nil => exact hs
  | cons param params ih =>
    cases args with
    | nil => exact hs
    | cons arg args =>
      obtain ⟨harg, hargs⟩ := List.forall_mem_cons.1 hargs
      exact ih (hs.set harg param level true) hargs

theorem InFrom.globals (hs : s.InFrom R k) {fields : List (String × Value)}
    (hfields : ∀ f ∈ fields, f.2.Within R) :
    (fields.foldl (fun s f => s.set f.1 f.2 0 true) s).InFrom R k := by
  induction fields generalizing s with
  | nil => exact hs
  | cons f fields ih =>
    obtain ⟨hf, hfields⟩ := List.forall_mem_cons.1 hfields
    exact ih (hs.set hf f.1 0 true) hfields

theorem InFrom.close (hs : s.InFrom R k) (level : Nat) : (s.close level).InFrom R k := by
  intro l x v hl hv
  rw [get?_close] at hv
  split at hv
  · exact hs l x v hl hv
  · cases hv

/-- Names that are added from a store that keeps to the inside keep to it. -/
theorem InFrom.absorb (hs : s.InFrom R k) (hother : other.InFrom R k) :
    (s.absorb other).InFrom R k := by
  intro l x v hl hv
  rw [get?_absorb] at hv
  rcases Option.or_eq_some_iff.1 hv with hv | ⟨-, hv⟩
  · exact hs l x v hl hv
  · exact hother l x v hl hv

/-- What code reads in such a store refers to such instances. -/
theorem InFrom.lookup (hs : s.InFrom R 0) {name : String} {level : Nat} {v : Value}
    (h : s.lookup name level = some v) : v.Within R := by
  obtain ⟨l, -, hv, -⟩ := lookup_eq_some_iff.1 h
  exact hs l name v (Nat.zero_le l) hv

theorem InFrom.getD (hs : s.InFrom R 0) {v : Value} (hv : v.Within R) (name : String)
    (level : Nat) : ((s.lookup name level).getD v).Within R := by
  cases hw : s.lookup name level with
  | none => exact hv
  | some w => exact hs.lookup hw

theorem InFrom.get (hs : s.InFrom R 0) {name : String} {level : Nat} {v : Value}
    (h : s.get name level = .ok v) : v.Within R := by
  unfold Scopes.get at h
  cases hv : s.lookup name level with
  | none =>
    rw [hv] at h
    cases h
  | some w =>
    rw [hv] at h
    cases h
    exact hs.lookup hv

/-- A store whose global variables are fields has only the values of the fields, once these have
been put there. -/
theorem InFrom.seeded (hs : s.InFrom R 1) {fields : List (String × Value)}
    (hnodup : (fields.map (·.1)).Nodup) (hfields : ∀ f ∈ fields, f.2.Within R)
    (hknown : ∀ x, s.Binds 0 x → ∃ f ∈ fields, f.1 = x) :
    (fields.foldl (fun s f => s.set f.1 f.2 0 true) s).InFrom R 0 := by
  intro l x v hl hv
  rcases Nat.eq_zero_or_pos l with rfl | hpos
  · have hbound := binds_globals.1 (Option.isSome_iff_exists.2 ⟨v, hv⟩)
    obtain ⟨f, hf, rfl⟩ := hbound.elim (hknown x) And.right
    rw [get?_zero_globals hnodup hf] at hv
    cases hv
    exact hfields f hf
  · exact hs.globals hfields l x v hpos hv

end Scopes

/-- The signals refer to instances in `R` only. -/
def SignalsIn (R : Handle → Prop) (signals : Returns) : Prop := ∀ v ∈ signals, v.Within R

theorem SignalsIn.push {signals : Returns} (h : SignalsIn R signals) {v : Value}
    (hv : v.Within R) : SignalsIn R (signals ++ [v]) := by
  intro w hw
  rcases List.mem_append.1 hw with hw | hw
  · exact h w hw
  · rw [List.mem_singleton.1 hw]
    exact hv

theorem SignalsIn.dropLast {signals : Returns} (h : SignalsIn R signals) :
    SignalsIn R signals.dropLast := fun w hw => h w (List.mem_of_mem_dropLast hw)

/-- The fixed values of a definition refer to instances in `R` only. -/
def BoxDef.FixedIn (R : Handle → Prop) (d : BoxDef) : Prop :=
  ∀ f ∈ d.fields, ∀ v, f.init = .fixed v → v.Within R

/-- A definition that is written down has no values yet. -/
theorem BoxDef.fixedIn_ofDecl (declaration : BoxDecl) : (ofDecl declaration).FixedIn R := by
  intro f hf v hv
  obtain ⟨_, -, rfl⟩ := List.mem_map.1 hf
  cases hv

/-- A definition that a machine registers has the fixed values of its base. -/
theorem Machine.Accepts.fixedIn {m : Machine} {d whole : BoxDef} (h : m.Accepts d whole)
    (hd : d.FixedIn R) (hboxes : m.boxes.AllIn (BoxDef.FixedIn R)) : whole.FixedIn R := by
  obtain ⟨base, hbase, hwhole⟩ := h.complete
  rw [BoxDef.eq_of_complete hwhole]
  cases base with
  | none => exact hd
  | some b =>
    obtain ⟨name, hb⟩ := hbase.registered
    intro f hf
    rcases mem_or_mem_of_inheritBy hf with hf | hf
    · exact hd f hf
    · exact hboxes name b hb f hf

/-! ### Fields -/

namespace Instance

variable {i : Instance}

/-- The fields refer to instances in `R` only. -/
def HoldsIn (R : Handle → Prop) (i : Instance) : Prop :=
  ∀ name v access, Slot.field name v access ∈ i.slots → v.Within R

theorem HoldsIn.fields (h : i.HoldsIn R) : ∀ f ∈ i.fields, f.2.Within R := by
  intro f hf
  obtain ⟨slot, hslot, heq⟩ := List.mem_filterMap.1 hf
  cases slot with
  | field name v access =>
    cases heq
    exact h _ _ _ hslot
  | function => cases heq

theorem HoldsIn.field? (h : i.HoldsIn R) {name : String} {v : Value} {access : Access}
    (hv : i.field? name = some (v, access)) : v.Within R :=
  h.fields _ (mem_fields_of_field? hv)

/-- After one field has been set, each value is that one or an old one. -/
theorem mem_setFieldSlot {name n : String} {v w : Value} {access : Access} {slots : List Slot}
    (h : .field n w access ∈ setFieldSlot name v slots) : w = v ∨ .field n w access ∈ slots := by
  induction slots with
  | nil => cases h
  | cons slot rest ih =>
    cases slot with
    | field n' old a =>
      unfold setFieldSlot at h
      split at h
      · rcases List.mem_cons.1 h with heq | h
        · cases heq
          exact .inl rfl
        · exact .inr (List.mem_cons_of_mem _ h)
      · rcases List.mem_cons.1 h with heq | h
        · exact .inr (List.mem_cons.2 (.inl heq))
        · exact (ih h).imp_right (List.mem_cons_of_mem _)
    | function =>
      unfold setFieldSlot at h
      have hrest := (List.mem_cons.1 h).resolve_left fun heq => by cases heq
      exact (ih hrest).imp_right (List.mem_cons_of_mem _)

theorem HoldsIn.setField (h : i.HoldsIn R) (name : String) {v : Value} (hv : v.Within R) :
    (i.setField name v).HoldsIn R := by
  intro n w access hslot
  rcases mem_setFieldSlot hslot with rfl | hslot
  · exact hv
  · exact h n w access hslot

theorem HoldsIn.mapFields (h : i.HoldsIn R) {f : String → Value → Value}
    (hf : ∀ name v, v.Within R → (f name v).Within R) : (i.mapFields f).HoldsIn R := by
  intro name v access hslot
  obtain ⟨slot, hslot, heq⟩ := List.mem_map.1 hslot
  cases slot with
  | field n w a =>
    cases heq
    exact hf name w (h _ _ _ hslot)
  | function => cases heq

/-- Setting a level changes no field. -/
theorem field_mem_setLevelSlot {signature : Signature} {level : Nat} {name : String} {v : Value}
    {access : Access} {slots : List Slot}
    (h : .field name v access ∈ setLevelSlot signature level slots) :
    .field name v access ∈ slots := by
  induction slots with
  | nil => cases h
  | cons slot rest ih =>
    cases slot with
    | field n w a =>
      rcases List.mem_cons.1 h with heq | h
      · exact List.mem_cons.2 (.inl heq)
      · exact List.mem_cons_of_mem _ (ih h)
    | function routine a locals =>
      unfold setLevelSlot at h
      split at h <;> have h := (List.mem_cons.1 h).resolve_left fun heq => by cases heq
      · exact List.mem_cons_of_mem _ h
      · exact List.mem_cons_of_mem _ (ih h)

theorem HoldsIn.setLevel (h : i.HoldsIn R) (signature : Signature) (level : Nat) :
    (i.setLevel signature level).HoldsIn R :=
  fun name v access hslot => h name v access (field_mem_setLevelSlot hslot)

/-- A definition made of such an instance has values from inside only. -/
theorem HoldsIn.toBoxDef (h : i.HoldsIn R) (name : String) : (i.toBoxDef name).FixedIn R := by
  intro f hf v hv
  obtain ⟨slot, hslot, heq⟩ := List.mem_filterMap.1 hf
  cases slot with
  | field n w access =>
    dsimp only at heq
    split at heq
    · cases heq
    · cases heq
      cases hv
      exact h _ _ _ hslot
  | function => cases heq

end Instance

/-! ## Cells that stay within reach -/

/-- Each cell that has a property still has it. -/
def Pool.Stays {α : Type} [Inhabited α] (Q : α → Prop) (p q : Pool α) : Prop :=
  ∀ h, Q (p.get h) → Q (q.get h)

namespace Pool.Stays

variable {α : Type} [Inhabited α] {Q : α → Prop} {p q r : Pool α}

theorem of_get (h : ∀ k, q.get k = p.get k) : Stays Q p q := fun k hk => (h k).symm ▸ hk

theorem trans (h : Stays Q p q) (h' : Stays Q q r) : Stays Q p r := fun k hk => h' k (h k hk)

/-- Changing a cell that had the property into one that has it takes it away from none. -/
theorem modify {t : Handle} {f : α → α} (hf : Q (p.get t) → Q (f (p.get t))) :
    Stays Q p (p.modify t f) := by
  intro k hk
  rcases get_modify_cases p t f k with ⟨rfl, -, hget⟩ | hget <;> rw [hget]
  · exact hf hk
  · exact hk

theorem push {a : α} (ha : Q a) : Stays Q p (p.push a) := by
  intro k hk
  by_cases hnew : k = p.next
  · rw [hnew, get_push_next]
    exact ha
  · rw [get_push_of_ne hnew]
    exact hk

/-- Merging into a cell that has the property takes it away from none. -/
theorem mergeCell {combine : α → α → α} {into source : Handle}
    (h : Q (p.get into) → Q (combine (p.get into) (p.get source))) :
    Stays Q p (Context.mergeCell combine into source p) := by
  unfold Context.mergeCell
  split
  · exact fun _ => id
  · exact modify h

end Pool.Stays

/-- Stores, stacks and definitions that refer to instances in `R` only go on to do so. -/
structure Machine.Stays (R : Handle → Prop) (m m' : Machine) : Prop where
  scopes : ∀ k, m.heap.scopes.Stays (Scopes.InFrom R k) m'.heap.scopes
  returns : m.heap.returns.Stays (SignalsIn R) m'.heap.returns
  boxes : m.heap.boxes.Stays (·.AllIn (BoxDef.FixedIn R)) m'.heap.boxes

theorem Machine.Stays.same {m m' : Machine} (hscopes : m'.heap.scopes = m.heap.scopes)
    (hreturns : m'.heap.returns = m.heap.returns) (hboxes : m'.heap.boxes = m.heap.boxes) :
    m.Stays R m' where
  scopes _ := .of_get fun _ => by rw [hscopes]
  returns := .of_get fun _ => by rw [hreturns]
  boxes := .of_get fun _ => by rw [hboxes]

theorem Machine.Stays.trans {a b c : Machine} (h : a.Stays R b) (h' : b.Stays R c) :
    a.Stays R c :=
  ⟨fun k => (h.scopes k).trans (h'.scopes k), h.returns.trans h'.returns, h.boxes.trans h'.boxes⟩

/-! ## Confined code -/

/-- The cells of a context that hold values. -/
def Context.cells (c : Context) : Handle × Handle × Handle := (c.scopes, c.returns, c.boxes)

/-- What belongs to the instances in `R`, and what can be created, refers to such instances only.
The global variables of functions do not count. -/
structure Machine.Held (R : Handle → Prop) (m : Machine) : Prop where
  orderly : m.Orderly
  fresh : ∀ {h}, m.heap.instances.size ≤ h.index → R h
  boxes : m.boxes.AllIn (BoxDef.FixedIn R)
  fields : ∀ {h}, R h → (m.instanceAt h).HoldsIn R
  locals : ∀ {h s r}, R h → (m.instanceAt h).HasLocals s r →
    (m.heap.scopes.get s).InFrom R 1 ∧ SignalsIn R (m.heap.returns.get r)

/-- Also the variables and the signals of the code refer to instances in `R` only. -/
structure Machine.Confined (R : Handle → Prop) (m : Machine) : Prop extends m.Held R where
  scopes : m.scopes.InFrom R 0
  returns : SignalsIn R m.returns

/-- Code gets hold of instances in `R` only. -/
def confinedContract (R : Handle → Prop) : Tracked where
  lax := False
  inv := Machine.Confined R
  rel m m' := orderContract.rel m m' ∧ m.Stays R m'
  calls h _ := R h
  holds := R
  writes _ := True

/-- Changing one instance leaves the others, and itself, with values from inside. -/
theorem holdsIn_modify {p : Pool Instance} (hp : ∀ {k}, R k → (p.get k).HoldsIn R) (h : Handle)
    {f : Instance → Instance} (hf : ∀ i, i.HoldsIn R → (f i).HoldsIn R) {k : Handle} (hk : R k) :
    ((p.modify h f).get k).HoldsIn R := by
  rcases Pool.get_modify_cases p h f k with ⟨-, -, hget⟩ | hget <;> rw [hget]
  · exact hf _ (hp hk)
  · exact hp hk

namespace Machine.Confined

variable {m m' : Machine}

theorem order (moves : (confinedContract R).Moves m m') : orderContract.Moves m m' :=
  ⟨⟨moves.inv.orderly, moves.rel.1⟩, moves.restored⟩

/-- A step that keeps every cell as it should be is allowed. -/
theorem allows (hm : m.Confined R) (horder : orderContract.Allows m m')
    (hcells : m'.context.cells = m.context.cells) (hstays : m.Stays R m')
    (hfields : ∀ {h}, R h → (m'.instanceAt h).HoldsIn R)
    (hnew : ∀ {h s r}, m.heap.instances.size ≤ h.index → (m'.instanceAt h).HasLocals s r →
      (m'.heap.scopes.get s).InFrom R 1 ∧ SignalsIn R (m'.heap.returns.get r)) :
    (confinedContract R).Allows m m' := by
  obtain ⟨-, -, o⟩ := horder.rel.1.1
  have hscopes : m'.context.scopes = m.context.scopes := congrArg (·.1) hcells
  have hreturns : m'.context.returns = m.context.returns := congrArg (·.2.1) hcells
  have hboxes : m'.context.boxes = m.context.boxes := congrArg (·.2.2) hcells
  refine ⟨⟨?_, ?_, ?_⟩, horder.rel, hstays⟩
  · constructor
    case orderly => exact horder.inv
    case fresh => exact fun hh => hm.fresh (Nat.le_trans o.instances hh)
    case boxes =>
      show (m'.heap.boxes.get m'.context.boxes).AllIn _
      rw [hboxes]
      exact hstays.boxes _ hm.boxes
    case fields => exact hfields
    case locals =>
      intro h s r hR hl
      rcases Nat.lt_or_ge h.index m.heap.instances.size with hh | hh
      · obtain ⟨hstore, hstack⟩ := hm.locals hR (hl.of_outline (o.outline hh).symm)
        exact ⟨hstays.scopes 1 s hstore, hstays.returns r hstack⟩
      · exact hnew hh hl
  · show (m'.heap.scopes.get m'.context.scopes).InFrom R 0
    rw [hscopes]
    exact hstays.scopes 0 _ hm.scopes
  · show SignalsIn R (m'.heap.returns.get m'.context.returns)
    rw [hreturns]
    exact hstays.returns _ hm.returns

/-- A step that makes no instance. -/
theorem still (hm : m.Confined R) (horder : orderContract.Allows m m')
    (hcells : m'.context.cells = m.context.cells) (hstays : m.Stays R m')
    (hfields : ∀ {h}, R h → (m'.instanceAt h).HoldsIn R)
    (houtline : ∀ h, (m'.instanceAt h).outline = (m.instanceAt h).outline) :
    (confinedContract R).Allows m m' :=
  hm.allows horder hcells hstays hfields fun hh hl =>
    absurd (Holders.owns_lt (e := m.holders) ⟨_, hl.of_outline (houtline _).symm⟩)
      (Nat.not_lt.2 hh)

/-- The way out of something that has begun on the machine `entered` and ended on `left`. -/
theorem leaving (hm : m.Confined R) {entered left : Machine} (horder : orderContract.Allows m m')
    (hcells : m'.context.cells = m.context.cells)
    (moves : (confinedContract R).Moves entered left) (hin : m.Stays R entered)
    (hout : left.Stays R m')
    (hfields : ∀ {h}, R h → (m'.instanceAt h).HoldsIn R)
    (houtline : ∀ h, (m'.instanceAt h).outline = (left.instanceAt h).outline) :
    (confinedContract R).Allows m m' := by
  refine hm.allows horder hcells ((hin.trans moves.rel.2).trans hout) hfields fun hh hl => ?_
  obtain ⟨hstore, hstack⟩ :=
    moves.inv.locals (hm.fresh hh) (hl.of_outline (houtline _).symm)
  exact ⟨hout.scopes 1 _ hstore, hout.returns _ hstack⟩

end Machine.Confined

section Steps

variable {m m' : Machine}

/-- Changing a store changes no stack and no table. -/
theorem stays_updateScopes (s : Handle) {f : Scopes → Scopes}
    (hf : ∀ k, (m.heap.scopes.get s).InFrom R k → (f (m.heap.scopes.get s)).InFrom R k) :
    m.Stays R (m.updateScopesAt s f) where
  scopes k := .modify (hf k)
  returns _ := id
  boxes _ := id

theorem stays_updateReturns {f : Returns → Returns} (hf : SignalsIn R m.returns →
    SignalsIn R (f m.returns)) : m.Stays R (m.updateReturns f) where
  scopes _ _ := id
  returns := .modify hf
  boxes _ := id

theorem stays_updateBoxes {t : Handle} {f : Boxes → Boxes}
    (hf : (m.heap.boxes.get t).AllIn (BoxDef.FixedIn R) →
      (f (m.heap.boxes.get t)).AllIn (BoxDef.FixedIn R)) : m.Stays R (m.updateBoxesAt t f) where
  scopes _ _ := id
  returns _ := id
  boxes := .modify hf

theorem stays_linked {h : Handle} (hfields : (m.instanceAt h).HoldsIn R) :
    m.Stays R (m.linked h) where
  scopes _ _ := id
  returns _ := id
  boxes := .modify fun hall => hall.insert _ (hfields.toBoxDef _)

/-- A fork has copies, and what is copied comes from inside. -/
theorem stays_forked (hm : m.Confined R) : m.Stays R m.forked where
  scopes k := .push (hm.scopes.above k)
  returns := .push hm.returns
  boxes := .push hm.boxes

theorem stays_merged (moves : (confinedContract R).Moves m.forked m') :
    m'.Stays R (m.merged m') where
  scopes k := .mergeCell fun hs => hs.absorb (moves.inv.scopes.above k)
  returns := .mergeCell fun hs v hv => (List.mem_append.1 hv).elim (hs v) fun hv =>
    moves.inv.returns v (List.mem_of_mem_drop hv)
  boxes := .mergeCell fun hall => hall.union moves.inv.boxes

/-- On the way into a method its own store gets the fields of its instance. -/
theorem stays_entered {h : Handle} {signature : Signature} (locals : Locals) (active : Nat)
    (hfields : (m.instanceAt h).HoldsIn R) :
    m.Stays R (enterMethod h signature locals active m) where
  scopes _ := .modify fun hs => hs.globals hfields.fields
  returns _ := id
  boxes _ := id

namespace Machine.Held

variable {h : Handle} {signature : Signature} {routine : Routine} {access : Access}
  {locals : Locals}

/-- A method of an instance in `R` starts with such instances only, whatever its caller has. -/
theorem enterMethod (hm : m.Held R) (hR : R h)
    (hfound : (m.instanceAt h).method? signature = some (routine, access, locals)) :
    (enterMethod h signature locals (max m.context.level locals.level + 1) m).Confined R := by
  have hlocals := Instance.hasLocals_of_method? hfound
  have hrange := hm.orderly.shaped.lasting.sound.inRange ⟨_, hlocals⟩
  obtain ⟨hstore, hstack⟩ := hm.locals hR hlocals
  have hseed : (m.heap.scopes.modify locals.scopes fun s => (m.instanceAt h).fields.foldl
      (fun s f => s.set f.1 f.2 0 true) s).get locals.scopes
        = (m.instanceAt h).fields.foldl (fun s f => s.set f.1 f.2 0 true)
          (m.heap.scopes.get locals.scopes) := Pool.get_modify_self hrange _
  have houtline := outline_modify (p := m.heap.instances) (h := h)
    fun i => i.outline_setLevel signature (max m.context.level locals.level + 1)
  refine ⟨⟨hm.orderly.enterMethod hfound, ?_, hm.boxes, ?_, ?_⟩, ?_, hstack⟩
  · intro k hk
    change (Pool.modify _ _ _).size ≤ _ at hk
    rw [Pool.size_modify] at hk
    exact hm.fresh hk
  · exact fun hk => holdsIn_modify hm.fields h (fun i hi => hi.setLevel signature _) hk
  -- a store that another instance inside has may be this one, which got fields from inside only
  · intro k s r hk hl
    obtain ⟨hstore', hstack'⟩ := hm.locals hk (hl.of_outline (houtline k).symm)
    exact ⟨Pool.Stays.modify (fun hs => hs.globals (hm.fields hR).fields) s hstore', hstack'⟩
  · show ((m.heap.scopes.modify locals.scopes _).get locals.scopes).InFrom R 0
    rw [hseed]
    -- at level zero there are the fields, and these are set anew; what was there above is from
    -- inside
    refine hstore.seeded (hm.orderly.shaped.instances h).fieldNames (hm.fields hR).fields ?_
    intro x hx
    obtain ⟨level, hat⟩ := hlocals.localsAt
    exact Instance.mem_fields_iff.2 (hm.orderly.fields hat hx)

end Machine.Held

namespace Machine.Confined

/-- A new instance has fields from inside and locals without any values. -/
theorem allocate (hm : m.Confined R) {d : BoxDef} {fields : List Slot}
    (horder : orderContract.Allows m (allocate d fields m).machine)
    (hclean : FieldsIn (confinedContract R).Clean fields) :
    (confinedContract R).Allows m (allocate d fields m).machine := by
  obtain ⟨methods, heap, grown, hmethods, hmade⟩ := allocate_cases d fields m
  rw [hmade] at horder ⊢
  have hstays : m.Stays R { m with
      heap := { heap with instances := heap.instances.push ⟨d.name, fields ++ methods⟩ } } :=
    ⟨fun _ => .of_get grown.scopes, .of_get grown.returns, grown.boxes ▸ fun _ => id⟩
  refine hm.allows horder rfl hstays (fun {h} hR => ?_) fun {h s r} hh hl => ?_
  · show ((heap.instances.push _).get h).HoldsIn R
    by_cases hnew : h = heap.instances.next
    · rw [hnew, Pool.get_push_next]
      intro name v access hslot
      rcases List.mem_append.1 hslot with hslot | hslot
      · exact hclean hslot
      · obtain ⟨f, -, locals, heq, -⟩ := hmethods _ hslot
        cases heq
    · rw [Pool.get_push_of_ne hnew, grown.instances]
      exact hm.fields hR
  · obtain ⟨-, -, o⟩ := horder.rel.1.1
    -- new functions have new cells, and new cells are empty
    have hstore : m.heap.scopes.size ≤ s.index := o.fresh hh ⟨r, hl⟩
    obtain ⟨level, hat⟩ := hl.localsAt
    have hstack : m.heap.returns.size ≤ r.index := (horder.rel.2.new hh hat).2
    rw [grown.scopes, grown.returns, Pool.get_of_le hstore, Pool.get_of_le hstack]
    exact ⟨Scopes.inFrom_empty, fun v hv => absurd hv List.not_mem_nil⟩

theorem setField (hm : m.Confined R) (h : Handle) (field : String) {v : Value} (hv : v.Within R)
    (horder : orderContract.Allows m (m.updateInstance h (·.setField field v))) :
    (confinedContract R).Allows m (m.updateInstance h (·.setField field v)) :=
  hm.still horder rfl (.same rfl rfl rfl)
    (holdsIn_modify hm.fields h fun _ hi => hi.setField field hv)
    (outline_modify fun i => i.outline_setField field v)

theorem linked (hm : m.Confined R) {h : Handle} (hR : R h)
    (horder : (m.linked h).Orderly) : (m.linked h).Confined R where
  orderly := horder
  fresh := hm.fresh
  boxes := (stays_linked (hm.fields hR)).boxes _ hm.boxes
  fields := hm.fields
  locals := hm.locals
  scopes := hm.scopes
  returns := hm.returns

theorem forked (hm : m.Confined R) : m.forked.Confined R := by
  have hstays := stays_forked hm
  refine ⟨⟨hm.orderly.forked, hm.fresh, ?_, hm.fields, fun hR hl => ?_⟩, ?_, ?_⟩
  · show ((m.heap.boxes.push _).get m.heap.boxes.next).AllIn _
    rw [Pool.get_push_next]
    exact hm.boxes
  · obtain ⟨hstore, hstack⟩ := hm.locals hR hl
    exact ⟨hstays.scopes 1 _ hstore, hstays.returns _ hstack⟩
  · show ((m.heap.scopes.push _).get m.heap.scopes.next).InFrom R 0
    rw [Pool.get_push_next]
    exact hm.scopes
  · show SignalsIn R ((m.heap.returns.push _).get m.heap.returns.next)
    rw [Pool.get_push_next]
    exact hm.returns

section Methods

variable {h : Handle} {signature : Signature} {routine : Routine} {access : Access}
  {locals : Locals}

theorem leaveMethod (hm : m.Confined R) (hR : R h)
    (hfound : (m.instanceAt h).method? signature = some (routine, access, locals))
    (moves : (confinedContract R).Moves
      (BoxScript.enterMethod h signature locals (max m.context.level locals.level + 1) m) m') :
    (confinedContract R).Allows m (leaveMethod h signature locals m.context
      (max m.context.level locals.level) locals.level m') := by
  have hstore : (m'.heap.scopes.get locals.scopes).InFrom R 0 := by
    have hscopes := moves.inv.scopes
    unfold Machine.scopes at hscopes
    rwa [moves.restored.context] at hscopes
  have hleft : m'.Stays R (BoxScript.leaveMethod h signature locals m.context
      (max m.context.level locals.level) locals.level m') :=
    ⟨fun _ => .modify fun hs => hs.close _, fun _ => id, fun _ => id⟩
  refine hm.leaving (order_frames.methodOut hm.orderly hfound (order moves)) rfl
    moves (stays_entered locals _ (hm.fields hR)) hleft ?_
    (Shaped.outline_leaveMethod h signature locals m.context _ _ m')
  -- the fields get what the variables of the method are
  have hlevel : ∀ {k}, R k → ((m'.heap.instances.modify h
      (·.setLevel signature locals.level)).get k).HoldsIn R :=
    holdsIn_modify moves.inv.fields h fun i hi => hi.setLevel signature _
  refine fun {k} hk => holdsIn_modify hlevel h (fun i hi => hi.mapFields fun name v hv => ?_) hk
  have hclosed : ((m'.heap.scopes.modify locals.scopes
      (·.close (max m.context.level locals.level))).get locals.scopes).InFrom R 0 :=
    hleft.scopes 0 _ hstore
  exact hclosed.getD hv name 0

end Methods

end Machine.Confined

end Steps

/-- **Code that starts with instances in `R` only gets hold of no other ones.** -/
theorem confined_rules (R : Handle → Prop) : (confinedContract R).Rules AnyNode AnyNode where
  fragment := anyNode_language.toFragment
  scripts {m} _ := anyNode_language.scriptsIn m
  code {m} _ := m.codeIn_any
  refl hm := ⟨order_frames.refl hm.orderly, .same rfl rfl rfl⟩
  trans h h' := ⟨order_frames.trans h.1 h'.1, h.2.trans h'.2⟩
  -- what a handle is asked for comes from a variable, a field, a definition or a signal, all from
  -- inside
  named _ hm hholds := Value.within_object.1 (hm.scopes.get hholds)
  fresh _ hm := hm.fresh (Nat.le_refl _)
  variable_ hm hv := hm.scopes.get hv
  field hm hR hv := (hm.fields hR).field? hv
  fixed hm hknown hf hv := hm.boxes _ _ hknown _ hf _ hv
  created hm := hm.fresh (Nat.le_refl _)
  signal {m} hm := by
    show (m.returns.getLast?.getD .void).Within R
    cases hlast : m.returns.getLast? with
    | none => exact Value.within_void
    | some v => exact hm.returns v (List.mem_of_getLast? hlast)
  console hc hm := hm.still (order_frames.console hc hm.orderly) rfl (.same rfl rfl rfl) hm.fields
    fun _ => rfl
  assign value hv _ moves := moves.inv.still
    (order_frames.assign value _ trivial (Machine.Confined.order moves)) rfl
    (stays_updateScopes _ fun _ hs => hs.set hv _ _ _) moves.inv.fields fun _ => rfl
  declare _ hr hm := hm.still (order_frames.declare trivial hr hm.orderly) rfl (.same rfl rfl rfl)
    hm.fields fun _ => rfl
  register _ accepted hd hm := hm.still (order_frames.register trivial accepted hd hm.orderly) rfl
    (stays_updateBoxes fun hall => hall.insert _
      (accepted.fixedIn (BoxDef.fixedIn_ofDecl _) hm.boxes)) hm.fields fun _ => rfl
  extend name _ hr hm := hm.still (order_frames.extend name hr hm.orderly) rfl
    (.same rfl rfl rfl) hm.fields fun _ => rfl
  -- a new instance is inside too, since nothing inside had its handle before
  allocate hm hknown hd hfields hclean hm' := hm'.allocate
    (order_frames.allocate hm.orderly hknown hd hfields hm'.orderly) hclean
  setField {m h v} field _ hv hm := hm.setField h field hv
    (order_frames.setField h field v hm.orderly)
  linkIn hR hm := hm.linked hR (order_frames.linkIn _ hm.orderly)
  linkOut hR hm moves := hm.leaving
    (order_frames.linkOut _ hm.orderly (Machine.Confined.order moves))
    (congrArg Context.cells moves.restored.context) moves (stays_linked (hm.fields hR))
    (stays_updateBoxes fun hall => hall.erase _) moves.inv.fields fun _ => rfl
  linkRefused hm := hm.still (order_frames.linkRefused hm.orderly) rfl
    ⟨fun _ _ => id, fun _ => id, .modify fun hall => hall.erase _⟩ hm.fields fun _ => rfl
  push hv hm := hm.still (order_frames.push _ hm.orderly) rfl
    (stays_updateReturns fun h => h.push hv) hm.fields fun _ => rfl
  dropSignal hm := hm.still (order_frames.dropSignal hm.orderly) rfl
    (stays_updateReturns fun h => h.dropLast) hm.fields fun _ => rfl
  bindParams params hargs hm := hm.still (order_frames.bindParams params _ hm.orderly) rfl
    (stays_updateScopes _ fun _ hs => hs.bindParams _ params hargs) hm.fields fun _ => rfl
  scopeIn c hm := { hm with orderly := order_frames.scopeIn c hm.orderly }
  scopeOut c hm moves := hm.leaving
    (order_frames.scopeOut c hm.orderly (Machine.Confined.order moves))
    (congrArg Context.cells moves.restored.context :) moves (.same rfl rfl rfl)
    ⟨fun _ => .modify fun hs => hs.close _, fun _ => id, fun _ => id⟩ moves.inv.fields fun _ => rfl
  clauseIn hm := { hm with orderly := order_frames.clauseIn hm.orderly }
  clauseOut hm moves := hm.leaving
    (order_frames.clauseOut hm.orderly (Machine.Confined.order moves))
    (congrArg Context.cells moves.restored.context :) moves (.same rfl rfl rfl)
    (.same rfl rfl rfl) moves.inv.fields fun _ => rfl
  callIn hm hlt := { hm with orderly := order_frames.callIn hm.orderly hlt }
  callOut hm hlt moves := hm.leaving
    (order_frames.callOut hm.orderly hlt (Machine.Confined.order moves))
    (congrArg Context.cells moves.restored.context :) moves (.same rfl rfl rfl)
    (.same rfl rfl rfl) moves.inv.fields fun _ => rfl
  fork hm := hm.forked
  merge hm moves := hm.leaving
    (order_frames.merge hm.orderly (Machine.Confined.order moves)) rfl moves
    (stays_forked hm) (stays_merged moves) moves.inv.fields fun _ => rfl
  discard hchained hm moves := hm.leaving
    (order_frames.discard hchained hm.orderly (Machine.Confined.order moves)) rfl
    moves (stays_forked hm) (.same rfl rfl rfl) moves.inv.fields fun _ => rfl
  enters hR :=
    { methodIn := fun hm hfound => hm.toHeld.enterMethod hR hfound
      methodOut := fun hm hfound moves => hm.leaveMethod hR hfound moves }

theorem confined_writable (R : Handle → Prop) (fuel : Nat) :
    (confinedContract R).Writable (eval fuel) where
  assigned _ _ _ := trivial
  reflected _ _ _ _ _ := trivial

/-! ## Calls while no function runs -/

/-- A field of the instance `h` refers to the instance `k`. -/
def Machine.Refers (m : Machine) (h k : Handle) : Prop :=
  ∃ name v access, Slot.field name v access ∈ (m.instanceAt h).slots ∧ v.Holds k

/-- A signal that a call of a function of `h` has left over refers to the instance `k`. -/
def Machine.LeftOver (m : Machine) (h k : Handle) : Prop :=
  ∃ s r v, (m.instanceAt h).HasLocals s r ∧ v ∈ m.heap.returns.get r ∧ v.Holds k

/-- The instances that can be reached from some others. -/
inductive Machine.Reaches (m : Machine) (root : Handle → Prop) : Handle → Prop
  | root {h : Handle} (hroot : root h) : m.Reaches root h
  | field {h k : Handle} (hh : m.Reaches root h) (hk : m.Refers h k) : m.Reaches root k
  | signal {h k : Handle} (hh : m.Reaches root h) (hk : m.LeftOver h k) : m.Reaches root k

/-- What a call of a method starts with: the instance, the arguments, and the fixed values of the
definitions. -/
inductive Machine.Passed (m : Machine) (a : Handle) (args : List Value) : Handle → Prop
  | self : m.Passed a args a
  | argument {v : Value} {h : Handle} (hv : v ∈ args) (hh : v.Holds h) : m.Passed a args h
  | fixed {name : String} {d : BoxDef} {f : FieldSpec} {v : Value} {h : Handle}
      (hd : m.boxes.get? name = some d) (hf : f ∈ d.fields) (hinit : f.init = .fixed v)
      (hh : v.Holds h) : m.Passed a args h

/-- The instances that a call can reach, and those still to be made. -/
def Machine.InReach (m : Machine) (a : Handle) (args : List Value) (h : Handle) : Prop :=
  m.Reaches (m.Passed a args) h ∨ m.heap.instances.size ≤ h.index

/-- As long as no clause of a `for` has returned, instances are reached through fields only. -/
theorem Machine.Quiet.not_leftOver {m : Machine} (hq : m.Quiet) (h k : Handle) :
    ¬m.LeftOver h k := by
  rintro ⟨s, r, v, hl, hv, -⟩
  rw [hq.slots hl] at hv
  exact List.not_mem_nil hv

/-- The cells of the instances that are not in `R`. -/
def Machine.outside (R : Handle → Prop) (m : Machine) : Pins where
  scopes s := ∃ k, ¬R k ∧ m.holders.Owns k s
  returns r := ∃ k s, ¬R k ∧ (m.instanceAt k).HasLocals s r
  instances k := ¬R k

section Outside

variable {m there : Machine}

/-- Code on the session's own store, as long as no function runs. -/
theorem Machine.AtRest.outer (hrest : m.AtRest) (hm : m.Orderly) : m.Outer := by
  rintro k ⟨r, hl⟩
  obtain ⟨level, hat⟩ := hl.localsAt
  have hpos := hm.running hat rfl
  rw [hrest k _ hat] at hpos
  exact Nat.lt_irrefl 0 hpos

/-- While no function runs, all that a call can reach refers to what it can reach. -/
theorem Machine.AtRest.held (hrest : m.AtRest) (hm : m.Orderly) (a : Handle) (args : List Value) :
    m.Held (m.InReach a args) := by
  have hnone : ∀ {h}, m.heap.instances.size ≤ h.index → m.instanceAt h = default :=
    fun hh => Pool.get_of_le hh
  refine ⟨hm, .inr, ?_, ?_, ?_⟩
  · exact fun name d hd f hf v hinit k hk => .inl (.root (.fixed hd hf hinit hk))
  · rintro h (hreach | hh) name v access hslot k hk
    · exact .inl (hreach.field ⟨name, v, access, hslot, hk⟩)
    · rw [hnone hh] at hslot
      cases hslot
  · intro h s r hR hl
    obtain ⟨level, hat⟩ := hl.localsAt
    have hclosed : ∀ l x, 1 ≤ l → ¬(m.heap.scopes.get s).Binds l x := fun l x hpos hbinds =>
      hm.resting hat (hrest h _ hat) hpos hbinds
    refine ⟨Scopes.inFrom_of_not_binds hclosed, ?_⟩
    rcases hR with hreach | hh
    · exact fun v hv k hk => .inl (hreach.signal ⟨s, r, v, hl, hv, hk⟩)
    · exact absurd (Holders.owns_lt hat.owns) (Nat.not_lt.2 hh)

/-- Methods of instances in `R` use none of the cells of other instances. -/
theorem Machine.Orderly.calls_outside (hm : m.Orderly) {h : Handle} (hR : R h)
    (signature : Signature) : (m.outside R).Calls m h signature where
  instances _ hpinned := hpinned hR
  scopes hruns _ hpinned := by
    obtain ⟨k, hk, howns⟩ := hpinned
    exact hk (hm.shaped.lasting.sound.apart ⟨_, hruns.hasLocals⟩ howns ▸ hR)
  returns hruns _ hpinned := by
    obtain ⟨k, s', hk, hl⟩ := hpinned
    obtain ⟨_, hat⟩ := hruns.hasLocals.localsAt
    obtain ⟨_, hat'⟩ := hl.localsAt
    exact hk ((hm.shaped.locals_eq hat hat' (hm.apart hat hat' rfl)).1 ▸ hR)

/-- Code that gets hold of instances in `R` only spares the cells of the other ones. -/
theorem Machine.Orderly.spares_outside (hm : m.Orderly) (node : Node) (hthere : there.Confined R) :
    (m.outside R).Spares m node there := by
  have hnamed : ∀ {name level h}, there.scopes.get name level = .ok (.object h) → R h :=
    fun hholds => Value.within_object.1 (hthere.scopes.get hholds)
  constructor
  case calls =>
    rintro h signature ⟨holder, first, further, rfl, hholds, -⟩
    exact hm.calls_outside (hnamed hholds) signature
  case sets =>
    rintro h (⟨holder, field, value, rfl, hholds⟩ | ⟨target, name, args, fuel, -, -, hvalue⟩)
    · exact fun _ hpinned => hpinned (hnamed hholds)
    · have hyields := (confined_rules R).yields_eval (confined_writable R) (fun _ _ => trivial)
        (P := fun _ _ => True) (fun _ _ _ _ => trivial) (fun _ => eval 0) fuel (anyNode target)
      exact fun _ hpinned => hpinned (Value.within_object.1 ((hyields there hthere).value hvalue))

/-- Code on the session's own store works on none of these cells. -/
theorem Machine.Orderly.leaves_outside (hm : m.Orderly) (houter : m.Outer) (R : Handle → Prop) :
    (m.outside R).Leaves m m.context where
  scopes := by
    rintro - ⟨k, -, howns⟩
    exact houter k howns
  functions _ := id
  boxes _ := id
  returns := by
    rintro - ⟨k, s, -, hl⟩
    obtain ⟨_, hat⟩ := hl.localsAt
    exact houter k ((hm.paired hat).2 rfl ▸ hat.owns)
  extensions _ := id

end Outside

/-- The instance is as it was, with the variables and the signals of its functions. -/
structure Machine.InstanceKept (m m' : Machine) (b : Handle) : Prop where
  values : m'.instanceAt b = m.instanceAt b
  scopes : ∀ {s r}, (m.instanceAt b).HasLocals s r → m'.heap.scopes.get s = m.heap.scopes.get s
  returns : ∀ {s r}, (m.instanceAt b).HasLocals s r →
    m'.heap.returns.get r = m.heap.returns.get r

/-- **A call changes only instances that it can reach.** Take any machine that comes about in the
course of a session while no function of an instance runs. However a call of a method of `a` ends
and whatever its body does, an instance `b` that cannot be reached from what the call starts with is
as it was, whether or not `a` and `b` have the same definition. -/
theorem call_leaves_others {m : Machine} (h : Attained m) (hrest : m.AtRest) (fuel : Nat)
    (a : Handle) (routine : Routine) (args : List Value) {b : Handle}
    (hb : b.index < m.heap.instances.size) (hreach : ¬m.Reaches (m.Passed a args) b) :
    m.InstanceKept (runMethod (eval fuel) a routine args m).machine b := by
  have hm := h.orderly
  rcases runMethod_cases a routine args m with ⟨e, hfails⟩ | ⟨r, access, locals, hfound, hlt, hruns⟩
  · rw [show (runMethod (eval fuel) a routine args m).machine = m from
      congrArg Outcome.machine (hfails (eval fuel))]
    exact ⟨rfl, fun _ => rfl, fun _ => rfl⟩
  have hself : m.InReach a args a := .inl (.root .self)
  have hout : ¬m.InReach a args b := fun hR => hR.elim hreach fun hh => absurd hb (Nat.not_lt.2 hh)
  -- the body gets hold of what is in reach only
  have hheld : m.deeper.Held (m.InReach a args) :=
    { hrest.held hm a args with orderly := order_frames.callIn hm hlt }
  have hconfined : (m.entered a routine.signature locals).Confined (m.InReach a args) :=
    hheld.enterMethod hself hfound
  have hargs : ∀ v ∈ args, v.Within (m.InReach a args) :=
    fun v hv k hk => .inl (.root (.argument hv hk))
  have hscope : Throughout ((m.outside (m.InReach a args)).Spares m) fuel
      (runBody · routine args) (m.entered a routine.signature locals) :=
    (confined_rules _).throughout_of_lifts (confined_writable _) (fun _ _ => trivial) id
      (fun node there _ hthere => hm.spares_outside node hthere)
      (Tracked.lifts_runBody (confined_rules _).toGround (fun n _ => anyNode n) hargs hconfined)
  -- and so it leaves the cells of the other instances as they are
  have hcalls := hm.calls_outside (R := m.InReach a args) hself routine.signature
  have hleft := Machine.Pinned.ofBody hcalls hfound (fun _ => id) (fun _ => id) hscope
  have hstart : Machine.Pinned (m.outside (m.InReach a args)) m m :=
    { Machine.Keeps.refl _ m with leaves := hm.leaves_outside (hrest.outer hm) _ }
  have hend := hstart.leaveMethod hcalls hfound hleft (max m.context.level locals.level)
    locals.level
  rw [show (runMethod (eval fuel) a routine args m).machine
      = m.returned a routine.signature locals _ from
    congrArg Outcome.machine (hruns (eval fuel))]
  refine ⟨hend.instances.same hb hout, fun hl => ?_, fun hl => ?_⟩
  · exact hend.scopes.same (hm.shaped.lasting.sound.inRange ⟨_, hl⟩) ⟨b, hout, _, hl⟩
  · obtain ⟨_, hat⟩ := hl.localsAt
    exact hend.returns.same (hm.inRange hat) ⟨b, _, hout, hl⟩

/-- The session of the cell, after a second instance of the same definition has been made. -/
def OneCell.twins : Machine := (eval 5 (.create "anonymous_0") machine).machine

/-- The one reaches itself only. -/
theorem OneCell.eq_of_reaches {k : Handle} (hk : twins.Reaches (twins.Passed ⟨0⟩ [.object ⟨0⟩]) k) :
    k = ⟨0⟩ := by
  have hslots : (twins.instanceAt ⟨0⟩).slots
      = [.field "x" (.str "") .exposed, .function put .exposed ⟨⟨1⟩, ⟨1⟩, 0⟩] := by cbv
  have hsignals : twins.heap.returns.get ⟨1⟩ = [] := by cbv
  have hfixed : twins.boxes.AllIn (BoxDef.FixedIn fun _ => False) := by
    have hboxes : twins.boxes = Dict.empty.insert "anonymous_0" (.ofDecl
        ⟨"anonymous_0", none, false, false, [⟨"x", .str "", .exposed⟩],
          [⟨put, .exposed, false⟩]⟩) := by cbv
    rw [hboxes]
    exact Dict.allIn_empty.insert _ (BoxDef.fixedIn_ofDecl _)
  -- by the ways in which something inside leads on: there is one instance, and it holds itself
  induction hk with
  | root hroot =>
    rcases hroot with _ | ⟨hv, hh⟩ | ⟨hd, hf, hinit, hh⟩
    · rfl
    · cases List.mem_singleton.1 hv
      cases hh
      rfl
    · exact (hfixed _ _ hd _ hf _ hinit _ hh).elim
  | field _ hk ih =>
    obtain ⟨name, v, access, hslot, hh⟩ := hk
    rw [ih, hslots] at hslot
    rcases List.mem_pair.1 hslot with heq | heq <;> cases heq
    cases hh
  | signal _ hk ih =>
    obtain ⟨s, r, v, ⟨routine, access, level, hslot⟩, hv, -⟩ := hk
    rw [ih, hslots] at hslot
    rcases List.mem_pair.1 hslot with heq | heq <;> cases heq
    rw [hsignals] at hv
    cases hv

/-- A call on the one leaves the other alone. -/
theorem call_leaves_others_twin :
    OneCell.twins.AtRest ∧ 1 < OneCell.twins.heap.instances.size ∧
      ¬OneCell.twins.Reaches (OneCell.twins.Passed ⟨0⟩ [.object ⟨0⟩]) ⟨1⟩ ∧
      OneCell.twins.InstanceKept
        (runMethod (eval 5) ⟨0⟩ OneCell.put [.object ⟨0⟩] OneCell.twins).machine ⟨1⟩ := by
  have hrest : OneCell.twins.AtRest :=
    OneCell.idle.atRest.eval (Reachable.orderly OneCell.reachable) 5 _
  have hb : 1 < OneCell.twins.heap.instances.size := by cbv
  have hother : ¬OneCell.twins.Reaches (OneCell.twins.Passed ⟨0⟩ [.object ⟨0⟩]) ⟨1⟩ :=
    fun h => by cases OneCell.eq_of_reaches h
  exact ⟨hrest, hb, hother, call_leaves_others (.evaluated (.reachable OneCell.reachable) 5
    (.expr (.create _))) hrest 5 ⟨0⟩ OneCell.put _ hb hother⟩

end BoxScript
