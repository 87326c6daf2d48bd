import BoxScript.Proofs.Activations
import BoxScript.Proofs.Fields

/-!
# The global variables of functions

The first call of a function of an instance binds the fields of the instance in the global scope of
its store, in the order in which the instance has them, and later calls bind them anew. Nothing else
ever gets there: all code of the function runs above the global level, and an imported script has
the same global variables in its copy of the store. So between runs the global scope of a function
is empty or it is exactly the list of the fields (`Machine.Seeded`), and since functions at rest
have no other variables, their stores are empty or hold the fields and nothing else.
-/

namespace BoxScript

/-! ## The names in a store -/

/-- The names of the global variables, in the order in which they were bound first. -/
def Scopes.globalNames (s : Scopes) : List String := s.globals.entries.map (·.1)

/-- Every inner scope binds something. -/
def Scopes.Full (s : Scopes) : Prop := ∀ e ∈ s.inner, e.2.entries ≠ []

/-- The names of the fields. -/
def Instance.names (i : Instance) : List String := i.fields.map (·.1)

/-- Bind the fields of an instance as global variables. -/
def Scopes.seed (s : Scopes) (fields : List (String × Value)) : Scopes :=
  fields.foldl (fun s f => s.set f.1 f.2 0 true) s

namespace Dict

variable {α : Type}

/-- An entry under a key that is there takes the place of the old one. -/
theorem keys_put_of_mem {k : String} {a : α} {es : List (String × α)} (h : k ∈ es.map (·.1)) :
    (put k a es).map (·.1) = es.map (·.1) := by
  induction es with
  | nil => cases h
  | cons e es ih =>
    obtain ⟨k', b⟩ := e
    unfold put
    by_cases hk : k = k'
    · rw [if_pos hk, hk]
      rfl
    · rw [if_neg hk, List.map_cons, List.map_cons, ih ((List.mem_cons.1 h).resolve_left hk)]

/-- An entry is put behind entries with other keys. -/
theorem put_append {k : String} (a : α) {before : List (String × α)}
    (h : k ∉ before.map (·.1)) (es : List (String × α)) :
    put k a (before ++ es) = before ++ put k a es := by
  induction before with
  | nil => rfl
  | cons e before ih =>
    obtain ⟨k', b⟩ := e
    obtain ⟨hk, hrest⟩ := List.ne_and_not_mem_of_not_mem_cons h
    rw [List.cons_append, put, if_neg hk, ih hrest, List.cons_append]

/-- What something is put into is not empty. -/
theorem put_ne_nil (k : String) (a : α) (es : List (String × α)) : put k a es ≠ [] := by
  cases es with
  | nil => exact List.cons_ne_nil _ _
  | cons e es =>
    unfold put
    split <;> exact List.cons_ne_nil _ _

/-- Entries that are put one after the other behind others take the places of old ones under the
same keys in the same order, or are appended if there are none. -/
theorem foldl_put_append {after todo : List (String × α)} (before : List (String × α))
    (hnodup : ((before ++ todo).map (·.1)).Nodup)
    (hafter : after = [] ∨ after.map (·.1) = todo.map (·.1)) :
    todo.foldl (fun es e => put e.1 e.2 es) (before ++ after) = before ++ todo := by
  induction todo generalizing before after with
  | nil =>
    have hnone : after = [] := hafter.elim id fun h => List.map_eq_nil_iff.1 h
    rw [hnone]
    rfl
  | cons e todo ih =>
    have hnew : e.1 ∉ before.map (·.1) := by
      intro hmem
      rw [List.map_append, List.nodup_append] at hnodup
      exact hnodup.2.2 _ hmem _ List.mem_cons_self rfl
    obtain ⟨rest, hput, hrest⟩ : ∃ rest, put e.1 e.2 after = e :: rest ∧
        (rest = [] ∨ rest.map (·.1) = todo.map (·.1)) := by
      rcases hafter with rfl | hafter
      · exact ⟨[], rfl, .inl rfl⟩
      · cases after with
        | nil => cases hafter
        | cons old rest =>
          obtain ⟨hkey, hrest⟩ := List.cons.inj hafter
          exact ⟨rest, if_pos hkey.symm, .inr hrest⟩
    rw [List.foldl_cons, put_append e.2 hnew, hput]
    have hdone := ih (before ++ [e]) (by rwa [List.append_assoc]) hrest
    rwa [List.append_assoc, List.append_assoc] at hdone

end Dict

namespace Scopes

variable {s other : Scopes} {level : Nat}

/-- The global names are those that are bound on the global level. -/
theorem mem_globalNames {x : String} : x ∈ s.globalNames ↔ s.Binds 0 x := by
  show x ∈ s.globals.entries.map (·.1) ↔ (Dict.find? x s.globals.entries).isSome = true
  rw [isSome_find?_iff, List.mem_map]

/-- A name that is new at a level above the global one is no new global variable. -/
theorem globalNames_bind {x : String} (h : level = 0 → s.Binds 0 x) (v : Value) :
    (s.bind level x v).globalNames = s.globalNames := by
  unfold bind
  by_cases hlevel : 0 < level
  · rw [dif_pos hlevel]
    rfl
  · rw [dif_neg hlevel]
    exact Dict.keys_put_of_mem (mem_globalNames.2 (h (by omega)))

/-- Above the global level a name is set there, or where it is bound already. -/
theorem globalNames_set (h : 0 < level) (x : String) (v : Value) (asParam : Bool) :
    (s.set x v level asParam).globalNames = s.globalNames := by
  unfold set
  cases asParam with
  | true => exact globalNames_bind (fun hzero => absurd h (by omega)) v
  | false =>
    refine globalNames_bind (fun hzero => ?_) v
    cases hfound : s.levelOf? x level with
    | none =>
      rw [hfound] at hzero
      exact absurd (show level = 0 from hzero) (Nat.ne_of_gt h)
    | some l =>
      rw [hfound] at hzero
      have hbound := (binds_of_levelOf? hfound).2
      rwa [show l = 0 from hzero] at hbound

/-- Parameters are bound on the level of the call, which is above the global one. -/
theorem globalNames_bindParams (h : 0 < level) (params : List String) (args : List Value) :
    (bindParams level params args s).globalNames = s.globalNames := by
  induction params generalizing args s with
  | nil => rfl
  | cons param params ih =>
    cases args with
    | nil => rfl
    | cons arg args => exact (ih args).trans (globalNames_set h param arg true)

/-- A store with the same global variables or fewer adds none. -/
theorem globalNames_absorb (h : ∀ x ∈ other.globalNames, x ∈ s.globalNames) :
    (s.absorb other).globalNames = s.globalNames := by
  have hzero : ∀ b ∈ other.bindings, b.1 = 0 → s.Binds 0 b.2.1 := fun b hb hl =>
    mem_globalNames.1 (h _ (mem_globalNames.2 (exists_bindings_iff.1 ⟨b, hb, hl, rfl⟩)))
  unfold absorb
  generalize other.bindings = bs at hzero
  induction bs generalizing s with
  | nil => rfl
  | cons b bs ih =>
    obtain ⟨hfirst, hrest⟩ := List.forall_mem_cons.1 hzero
    have hnew : (s.bindNew b.1 b.2.1 b.2.2).globalNames = s.globalNames := by
      unfold bindNew
      split
      · rfl
      · exact globalNames_bind hfirst _
    have hstill : ∀ b' ∈ bs, b'.1 = 0 → (s.bindNew b.1 b.2.1 b.2.2).Binds 0 b'.2.1 :=
      fun b' hb' hl => binds_bindNew.2 (.inl (hrest b' hb' hl))
    rw [List.foldl_cons]
    refine (ih (fun x hx => ?_) hstill).trans hnew
    rw [hnew]
    exact h x hx

/-! ## Seeding -/

theorem inner_seed (s : Scopes) (fields : List (String × Value)) :
    (s.seed fields).inner = s.inner := by
  induction fields generalizing s with
  | nil => rfl
  | cons f fields ih => exact ih _

theorem globals_seed (s : Scopes) (fields : List (String × Value)) :
    (s.seed fields).globals.entries
      = fields.foldl (fun es f => Dict.put f.1 f.2 es) s.globals.entries := by
  induction fields generalizing s with
  | nil => rfl
  | cons f fields ih => exact ih _

/-- Fields that are bound in an empty global scope, or over old values of themselves, are all that
is bound there. -/
theorem entries_seed {fields : List (String × Value)} (hnodup : (fields.map (·.1)).Nodup)
    (hnames : s.globalNames = [] ∨ s.globalNames = fields.map (·.1)) :
    (s.seed fields).globals.entries = fields := by
  rw [globals_seed]
  exact Dict.foldl_put_append [] hnodup
    (hnames.imp (fun h => List.map_eq_nil_iff.1 h) id)

/-- Seeding a store that was seeded before, or never, leaves the names of the fields in it. -/
theorem globalNames_seed {fields : List (String × Value)} (hnodup : (fields.map (·.1)).Nodup)
    (hnames : s.globalNames = [] ∨ s.globalNames = fields.map (·.1)) :
    (s.seed fields).globalNames = fields.map (·.1) := by
  unfold globalNames
  rw [entries_seed hnodup hnames]

/-- A store with nothing but old values of the fields becomes what an empty one becomes. -/
theorem seed_eq_seed_empty {fields : List (String × Value)} (hnodup : (fields.map (·.1)).Nodup)
    (hinner : s.inner = [])
    (hnames : s.globalNames = [] ∨ s.globalNames = fields.map (·.1)) :
    s.seed fields = empty.seed fields := by
  have hglobals : (s.seed fields).globals = (empty.seed fields).globals :=
    congrArg Dict.mk ((entries_seed hnodup hnames).trans (entries_seed hnodup (.inl rfl)).symm)
  have hscopes : (s.seed fields).inner = (empty.seed fields).inner := by
    rw [inner_seed, inner_seed, hinner]
    rfl
  revert hglobals hscopes
  generalize s.seed fields = a
  generalize empty.seed fields = b
  intro hglobals hscopes
  cases a
  cases b
  cases hglobals
  cases hscopes
  rfl

/-! ## Full stores -/

/-- There is no inner scope in an empty store. -/
theorem full_empty : empty.Full := nofun

theorem full_bindInner {inner : List (Nat × Variables)} (h : ∀ e ∈ inner, e.2.entries ≠ [])
    (level : Nat) (x : String) (v : Value) :
    ∀ e ∈ bindInner level x v inner, e.2.entries ≠ [] := by
  induction inner with
  | nil => exact List.forall_mem_singleton.2 (Dict.put_ne_nil x v [])
  | cons first rest ih =>
    obtain ⟨hfirst, hrest⟩ := List.forall_mem_cons.1 h
    unfold bindInner
    split
    · exact List.forall_mem_cons.2 ⟨Dict.put_ne_nil x v _, hrest⟩
    · split
      · exact List.forall_mem_cons.2 ⟨Dict.put_ne_nil x v [], h⟩
      · exact List.forall_mem_cons.2 ⟨hfirst, ih hrest⟩

theorem Full.bind (h : s.Full) (level : Nat) (x : String) (v : Value) :
    (s.bind level x v).Full := by
  unfold Scopes.bind
  split
  · exact full_bindInner h level x v
  · exact h

theorem Full.set (h : s.Full) (x : String) (v : Value) (level : Nat) (asParam : Bool) :
    (s.set x v level asParam).Full := by
  unfold Scopes.set
  split <;> exact h.bind _ _ _

theorem Full.bindParams (h : s.Full) (level : Nat) (params : List String) (args : List Value) :
    (bindParams level params args s).Full := by
  induction params generalizing args s with
  | nil => exact h
  | cons param params ih =>
    cases args with
    | nil => exact h
    | cons arg args => exact ih (h.set param arg level true) args

/-- Seeding does not touch the inner scopes. -/
theorem Full.seed (h : s.Full) (fields : List (String × Value)) : (s.seed fields).Full := by
  unfold Full
  rw [inner_seed]
  exact h

/-- Closing scopes takes them away as a whole. -/
theorem Full.close (h : s.Full) (level : Nat) : (s.close level).Full :=
  fun e he => h e ((List.dropWhile_sublist _).subset he)

theorem Full.absorb (h : s.Full) (other : Scopes) : (s.absorb other).Full := by
  unfold Scopes.absorb
  generalize other.bindings = bs
  induction bs generalizing s with
  | nil => exact h
  | cons b bs ih =>
    have hnew : (s.bindNew b.1 b.2.1 b.2.2).Full := by
      unfold bindNew
      split
      · exact h
      · exact h.bind _ _ _
    exact ih hnew

/-- A full store without variables above the global level has no inner scopes. -/
theorem Full.inner_eq_nil (h : s.Full) (hnone : ∀ l x, 0 < l → ¬s.Binds l x) : s.inner = [] := by
  obtain ⟨globals, inner, hdesc⟩ := s
  cases inner with
  | nil => rfl
  | cons e rest =>
    obtain ⟨l, ⟨entries⟩⟩ := e
    have hpos : 0 < l := hdesc.2 _ List.mem_cons_self
    cases entries with
    | nil => exact absurd rfl (h _ List.mem_cons_self)
    | cons b entries =>
      refine absurd ?_ (hnone l b.1 hpos)
      unfold Binds
      rw [get?_inner _ hpos, innerAt_cons_self]
      exact isSome_find?_iff.2 ⟨b, List.mem_cons_self, rfl⟩

end Scopes

/-! ## Instances -/

theorem Instance.names_eq (i : Instance) : i.names = i.slots.filterMap Slot.fieldName? := by
  unfold names fields
  rw [List.map_filterMap]
  refine List.filterMap_congr fun slot _ => ?_
  cases slot <;> rfl

theorem Instance.names_of_outline {i j : Instance} (h : j.outline = i.outline) :
    j.names = i.names := by
  have hshape : ∀ k : Instance, k.names = k.outline.filterMap Slot.fieldName? := by
    intro k
    rw [names_eq]
    unfold outline
    rw [List.filterMap_map]
    exact List.filterMap_congr fun slot _ => by cases slot <;> rfl
  rw [hshape j, h, hshape i]

/-! ## The machine -/

/-- The names of the global variables in a store. -/
def Machine.namesIn (m : Machine) (s : Handle) : List String := (m.heap.scopes.get s).globalNames

/-- The global variables of functions are the fields of their instance, or there are none yet. -/
structure Machine.Seeded (m : Machine) : Prop where
  full : ∀ s, (m.heap.scopes.get s).Full
  names : ∀ {h l}, m.LocalsAt h l →
    m.namesIn l.scopes = [] ∨ m.namesIn l.scopes = (m.instanceAt h).names
  /-- Code of a function has the fields. -/
  active : ∀ {h l}, m.LocalsAt h l → l.scopes = m.context.scopes →
    m.namesIn l.scopes = (m.instanceAt h).names

/-- Stores keep their global variables, but a function may get the fields of its instance. Only code
on the global level may bind others, in its own store. -/
structure Machine.Steady (m m' : Machine) : Prop where
  names : ∀ {s : Handle}, s.index < m.heap.scopes.size →
    (s = m.context.scopes → 0 < m.context.level) →
    m'.namesIn s = m.namesIn s ∨
      ∃ h, m.holders.Owns h s ∧ m'.namesIn s = (m.instanceAt h).names

/-- Everything stays in order, and only calls of a function seed its store. -/
def seedContract : Contract where
  lax := False
  inv m := m.Orderly ∧ m.Seeded
  rel m m' := orderContract.rel m m' ∧ m.Steady m'

section Steady

variable {m m' : Machine}

theorem seed_order (moves : seedContract.Moves m m') : orderContract.Moves m m' :=
  ⟨⟨moves.inv.1, moves.rel.1⟩, moves.restored⟩

/-- A step that changes no store keeps all names. -/
theorem Machine.Steady.of_get (h : ∀ s, m'.heap.scopes.get s = m.heap.scopes.get s) :
    m.Steady m' where
  names _ _ := .inl (congrArg Scopes.globalNames (h _))

/-- Above the global level the code changes no global names of its own store. -/
theorem Machine.steady_updateScopes {f : Scopes → Scopes}
    (hf : 0 < m.context.level → ∀ s, (f s).globalNames = s.globalNames) :
    m.Steady (m.updateScopes f) := by
  refine ⟨fun {s} _ hpos => .inl ?_⟩
  show ((m.heap.scopes.modify m.context.scopes f).get s).globalNames = _
  rcases Pool.get_modify_cases m.heap.scopes m.context.scopes f s with ⟨heq, -, hget⟩ | hget <;>
    rw [hget]
  · exact hf (hpos heq) _
  · rfl

/-- Names that came from an instance in the second step are those of an instance in the first one,
since instances keep their fields. -/
theorem Machine.Steady.trans {a b c : Machine} (h : a.Steady b) (hab : orderContract.rel a b)
    (h' : b.Steady c) : a.Steady c := by
  obtain ⟨⟨⟨hscopes, hlevel, o⟩, -⟩, -⟩ := hab
  refine ⟨fun {s} hs hpos => ?_⟩
  have hposb : s = b.context.scopes → 0 < b.context.level := by
    rw [hscopes, hlevel]
    exact hpos
  rcases h'.names (Nat.lt_of_lt_of_le hs o.stores) hposb with hsame | ⟨k, howns, hnames⟩
  · rw [hsame]
    exact h.names hs hpos
  · have howned := o.owned howns hs
    refine .inr ⟨k, howned, hnames.trans ?_⟩
    exact Instance.names_of_outline (o.outline (Holders.owns_lt howned))

/-- The way into something and out of it. -/
theorem Machine.Steady.leaving {entered left : Machine} (hin : m.Steady entered)
    (h : entered.Steady left) (hsize : m.heap.scopes.size ≤ entered.heap.scopes.size)
    (hlevel : ∀ {s : Handle}, s.index < m.heap.scopes.size →
      (s = m.context.scopes → 0 < m.context.level) →
      s = entered.context.scopes → 0 < entered.context.level)
    (houtline : ∀ k, (entered.instanceAt k).outline = (m.instanceAt k).outline)
    (hout : ∀ {s : Handle}, s.index < m.heap.scopes.size → m'.namesIn s = left.namesIn s) :
    m.Steady m' := by
  refine ⟨fun {s} hs hpos => ?_⟩
  rw [hout hs]
  rcases h.names (Nat.lt_of_lt_of_le hs hsize) (hlevel hs hpos) with hsame | ⟨k, ⟨r, hl⟩, hnames⟩
  · rw [hsame]
    exact hin.names hs hpos
  · exact .inr ⟨k, ⟨r, hl.of_outline (houtline k).symm⟩,
      hnames.trans (Instance.names_of_outline (houtline k))⟩

/-- The way into something that leaves the stores alone, and out of it. -/
theorem Machine.Steady.around {entered left : Machine} (h : entered.Steady left)
    (hstores : entered.heap.scopes = m.heap.scopes)
    (hinstances : entered.heap.instances = m.heap.instances)
    (hscopes : entered.context.scopes = m.context.scopes)
    (hlevel : m.context.level ≤ entered.context.level)
    (hout : ∀ s, m'.namesIn s = left.namesIn s) : m.Steady m' :=
  Machine.Steady.leaving (.of_get fun _ => by rw [hstores]) h (by rw [hstores])
    (fun _ hpos heq => Nat.lt_of_lt_of_le (hpos (heq.trans hscopes)) hlevel)
    (fun k => by rw [Machine.instanceAt, hinstances]; rfl) fun _ => hout _

end Steady

namespace Machine.Seeded

variable {m m' : Machine}

/-- A step that keeps global variables keeps everything, if it does so with what is new. -/
theorem allows (hm : seedContract.inv m) (horder : orderContract.Allows m m')
    (hfull : ∀ s, (m'.heap.scopes.get s).Full) (hsteady : m.Steady m')
    (hnew : ∀ {h l}, m.heap.instances.size ≤ h.index → m'.LocalsAt h l →
      m'.namesIn l.scopes = [] ∨ m'.namesIn l.scopes = (m'.instanceAt h).names) :
    seedContract.Allows m m' := by
  obtain ⟨⟨⟨hscopes, -, o⟩, -⟩, hlevels⟩ := horder.rel
  -- what the store of an old function binds
  have hold : ∀ {h l}, h.index < m.heap.instances.size → m'.LocalsAt h l → m.LocalsAt h l ∧
      (m'.namesIn l.scopes = m.namesIn l.scopes ∨
        m'.namesIn l.scopes = (m'.instanceAt h).names) ∧
      (m'.instanceAt h).names = (m.instanceAt h).names := by
    intro h l hh hl
    have hl₀ := hl.of_bare (hlevels.old hh)
    have hnames := Instance.names_of_outline (o.outline hh)
    refine ⟨hl₀, ?_, hnames⟩
    have hraised : l.scopes = m.context.scopes → 0 < m.context.level := fun heq =>
      hm.1.shaped.raised (heq ▸ hl₀.owns)
    refine (hsteady.names (hm.1.store_lt hl₀) hraised).imp id ?_
    rintro ⟨k, howns, hseeded⟩
    rw [hm.1.shaped.lasting.sound.apart howns hl₀.owns] at hseeded
    exact hseeded.trans hnames.symm
  refine ⟨⟨horder.inv, hfull, ?_, ?_⟩, horder.rel, hsteady⟩
  · intro h l hl
    rcases Nat.lt_or_ge h.index m.heap.instances.size with hh | hh
    · obtain ⟨hl₀, hsame | hseeded, hnames⟩ := hold hh hl
      · rw [hsame, hnames]
        exact hm.2.names hl₀
      · exact .inr hseeded
    · exact hnew hh hl
  · intro h l hl heq
    rcases Nat.lt_or_ge h.index m.heap.instances.size with hh | hh
    · obtain ⟨hl₀, hsame | hseeded, hnames⟩ := hold hh hl
      · rw [hsame, hnames]
        exact hm.2.active hl₀ (heq.trans hscopes)
      · exact hseeded
    · -- code does not work on the store of a new function
      have hfresh := o.fresh hh hl.owns
      rw [heq, hscopes] at hfresh
      exact absurd hm.1.shaped.lasting.active.inRange (Nat.not_lt.2 hfresh)

/-- A step that makes no functions. -/
theorem untouched (hm : seedContract.inv m) (horder : orderContract.Allows m m')
    (hfull : ∀ s, (m'.heap.scopes.get s).Full) (hsteady : m.Steady m')
    (houtline : ∀ h, (m'.instanceAt h).outline = (m.instanceAt h).outline) :
    seedContract.Allows m m' := by
  refine allows hm horder hfull hsteady fun {h l} hh hl => ?_
  have howns : m.holders.Owns h l.scopes := ⟨_, hl.hasLocals.of_outline (houtline h).symm⟩
  exact absurd (Holders.owns_lt howns) (Nat.not_lt.2 hh)

/-- A step that changes no store and makes no functions. -/
theorem unstored (hm : seedContract.inv m) (horder : orderContract.Allows m m')
    (hscopes : m'.heap.scopes = m.heap.scopes)
    (houtline : ∀ h, (m'.instanceAt h).outline = (m.instanceAt h).outline) :
    seedContract.Allows m m' := by
  refine untouched hm horder ?_ (.of_get fun s => by rw [hscopes]) houtline
  rw [hscopes]
  exact hm.2.full

/-- The way out of something: what is new was made inside. -/
theorem leaving (hm : seedContract.inv m) {entered left : Machine}
    (horder : orderContract.Allows m m') (moves : seedContract.Moves entered left)
    (hfull : ∀ s, (m'.heap.scopes.get s).Full) (hsteady : m.Steady m')
    (hnew : ∀ {h}, m.heap.instances.size ≤ h.index → m'.instanceAt h = left.instanceAt h)
    (hout : ∀ {s : Handle}, m.heap.scopes.size ≤ s.index → m'.namesIn s = left.namesIn s) :
    seedContract.Allows m m' := by
  obtain ⟨⟨⟨-, -, o⟩, -⟩, -⟩ := horder.rel
  refine allows hm horder hfull hsteady fun {h l} hh hl => ?_
  rw [hout (o.fresh hh hl.owns), hnew hh]
  unfold Machine.LocalsAt at hl
  rw [hnew hh] at hl
  exact moves.inv.2.names hl

/-- A change of one store. -/
theorem full_modify {p : Pool Scopes} (h : ∀ s, (p.get s).Full) (t : Handle) {f : Scopes → Scopes}
    (hf : ∀ s : Scopes, s.Full → (f s).Full) (s : Handle) : ((p.modify t f).get s).Full := by
  rcases Pool.get_modify_cases p t f s with ⟨-, -, hget⟩ | hget <;> rw [hget]
  · exact hf _ (h s)
  · exact h s

/-- A step that binds names in the store of the code. -/
theorem updateScopes (hm : seedContract.inv m) {f : Scopes → Scopes}
    (horder : orderContract.Allows m (m.updateScopes f)) (hfull : ∀ s : Scopes, s.Full → (f s).Full)
    (hf : 0 < m.context.level → ∀ s, (f s).globalNames = s.globalNames) :
    seedContract.Allows m (m.updateScopes f) :=
  untouched hm horder (full_modify hm.2.full _ hfull) (Machine.steady_updateScopes hf) fun _ => rfl

/-- A new function has a store of its own, which is empty. -/
theorem allocate (hm : seedContract.inv m) {d : BoxDef} {fields : List Slot}
    (horder : orderContract.Allows m (allocate d fields m).machine) :
    seedContract.Allows m (allocate d fields m).machine := by
  obtain ⟨methods, heap, grown, -, hmade⟩ := allocate_cases d fields m
  have hstores : ∀ s, (BoxScript.allocate d fields m).machine.heap.scopes.get s
      = m.heap.scopes.get s := by
    rw [hmade]
    exact grown.scopes
  refine allows hm horder (fun s => ?_) (.of_get hstores) fun {h l} hh hl => .inl ?_
  · rw [hstores]
    exact hm.2.full s
  · -- the store of a new function was not there before
    have hfresh : m.heap.scopes.size ≤ l.scopes.index := horder.rel.1.1.2.2.fresh hh hl.owns
    unfold Machine.namesIn
    rw [hstores, Pool.get_of_le hfresh]
    rfl

section Methods

variable {h : Handle} {signature : Signature} {routine : Routine} {access : Access}
  {locals : Locals}

/-- The way into a method seeds its store. -/
theorem namesIn_enterMethod (hm : seedContract.inv m)
    (hfound : (m.instanceAt h).method? signature = some (routine, access, locals)) (active : Nat)
    {s : Handle} (hs : s.index < m.heap.scopes.size) :
    (enterMethod h signature locals active m).namesIn s
      = if s = locals.scopes then (m.instanceAt h).names else m.namesIn s := by
  show ((m.heap.scopes.modify locals.scopes (·.seed (m.instanceAt h).fields)).get s).globalNames = _
  by_cases heq : s = locals.scopes
  · rw [if_pos heq, heq, Pool.get_modify_self (heq ▸ hs)]
    exact Scopes.globalNames_seed (hm.1.shaped.instances h).fieldNames
      (hm.2.names (localsAt_of_method? hfound))
  · rw [if_neg heq, Pool.get_modify_of_ne (Ne.symm heq)]
    rfl

/-- On the way into a method one store changes its names, that of the method. -/
theorem steady_enterMethod (hm : seedContract.inv m)
    (hfound : (m.instanceAt h).method? signature = some (routine, access, locals)) (active : Nat) :
    m.Steady (enterMethod h signature locals active m) := by
  refine ⟨fun {s} hs _ => ?_⟩
  rw [namesIn_enterMethod hm hfound active hs]
  by_cases heq : s = locals.scopes
  · rw [if_pos heq]
    exact .inr ⟨h, heq ▸ (localsAt_of_method? hfound).owns, rfl⟩
  · rw [if_neg heq]
    exact .inl rfl

theorem enterMethod (hm : seedContract.inv m)
    (hfound : (m.instanceAt h).method? signature = some (routine, access, locals)) :
    (enterMethod h signature locals (max m.context.level locals.level + 1) m).Seeded := by
  have hlocals := localsAt_of_method? hfound
  have hnames : ∀ k, ((BoxScript.enterMethod h signature locals
      (max m.context.level locals.level + 1) m).instanceAt k).names = (m.instanceAt k).names :=
    fun k => Instance.names_of_outline
      (outline_modify (fun i => i.outline_setLevel signature _) k)
  -- the owner of the store is the instance that is entered
  have howner : ∀ {k l₀}, m.LocalsAt k l₀ → l₀.scopes = locals.scopes → k = h :=
    fun hl₀ heq => hm.1.shaped.lasting.sound.apart hl₀.owns (heq ▸ hlocals.owns)
  refine ⟨full_modify hm.2.full _ fun s hs => hs.seed _, fun {k l} hl => ?_, fun {k l} hl heq => ?_⟩
  all_goals obtain ⟨l₀, hl₀, hscopes, -, -⟩ := Machine.Orderly.localsAt_enterMethod hl
  all_goals rw [hscopes, namesIn_enterMethod hm hfound _ (hm.1.store_lt hl₀), hnames]
  · by_cases heq : l₀.scopes = locals.scopes
    · rw [if_pos heq, howner hl₀ heq]
      exact .inr rfl
    · rw [if_neg heq]
      exact hm.2.names hl₀
  · have heq' : l₀.scopes = locals.scopes := hscopes.symm.trans heq
    rw [if_pos heq', howner hl₀ heq']

/-- On the way out of a method only scopes above the global one are closed. -/
theorem leaveMethod (hm : seedContract.inv m)
    (hfound : (m.instanceAt h).method? signature = some (routine, access, locals))
    (moves : seedContract.Moves
      (BoxScript.enterMethod h signature locals (max m.context.level locals.level + 1) m) m') :
    seedContract.Allows m (leaveMethod h signature locals m.context
      (max m.context.level locals.level) locals.level m') := by
  have hh : h.index < m.heap.instances.size :=
    Holders.owns_lt (localsAt_of_method? hfound).owns
  -- the way out closes scopes, but never the global one
  have hout : ∀ {s : Handle}, (BoxScript.leaveMethod h signature locals m.context
      (max m.context.level locals.level) locals.level m').namesIn s = m'.namesIn s := by
    intro s
    show ((m'.heap.scopes.modify locals.scopes _).get s).globalNames = _
    rcases Pool.get_modify_cases m'.heap.scopes locals.scopes
      (·.close (max m.context.level locals.level)) s with ⟨-, -, hget⟩ | hget <;> rw [hget] <;> rfl
  refine leaving hm (order_frames.methodOut hm.1 hfound (seed_order moves)) moves
    (full_modify moves.inv.2.full _ fun s hs => hs.close _) ?_ (fun {k} hk => ?_) fun _ => hout
  · refine (steady_enterMethod hm hfound _).leaving moves.rel.2 ?_ (fun _ _ _ => Nat.succ_pos _)
      (outline_modify fun i => i.outline_setLevel signature _) fun _ => hout
    exact Nat.le_of_eq (Pool.size_modify _ _ _).symm
  · have hne : h ≠ k := by
      rintro rfl
      omega
    exact (Pool.get_modify_of_ne hne _).trans (Pool.get_modify_of_ne hne _)

end Methods

/-- A script has a copy of the store, and all stores are there as before. -/
theorem namesIn_forked {s : Handle} (hs : s.index < m.heap.scopes.size) :
    m.forked.namesIn s = m.namesIn s :=
  congrArg Scopes.globalNames (Pool.get_push_of_lt hs _)

theorem forked (hm : seedContract.inv m) : m.forked.Seeded where
  full s := by
    show ((m.heap.scopes.push m.scopes).get s).Full
    by_cases hs : s = m.heap.scopes.next
    · rw [hs, Pool.get_push_next]
      exact hm.2.full _
    · rw [Pool.get_push_of_ne hs]
      exact hm.2.full s
  names hl := by
    rw [namesIn_forked (hm.1.store_lt hl)]
    exact hm.2.names hl
  active {h l} hl heq := by
    have hlt := hm.1.store_lt (h := h) (l := l) hl
    rw [show l.scopes = m.heap.scopes.next from heq] at hlt
    exact absurd hlt (Nat.lt_irrefl _)

/-- Whatever the script binds in its copy, it does not bind in the stores from before. -/
theorem steady_forked (moves : seedContract.Moves m.forked m') : m.Steady m' := by
  have hin : m.Steady m.forked := ⟨fun hs _ => .inl (namesIn_forked hs)⟩
  refine hin.leaving moves.rel.2 ?_ (fun {s} hs _ heq => ?_) (fun _ => rfl) fun _ => rfl
  · show m.heap.scopes.size ≤ (m.heap.scopes.push _).size
    rw [Pool.size_push]
    omega
  · rw [show s = m.heap.scopes.next from heq] at hs
    exact absurd hs (Nat.lt_irrefl _)

/-- Above the global level a script has no other global variables than the code that imports it. -/
theorem namesIn_merged (hm : seedContract.inv m) (moves : seedContract.Moves m.forked m')
    {s : Handle} (hs : s.index < m.heap.scopes.size)
    (hpos : s = m.context.scopes → 0 < m.context.level) :
    (m.merged m').namesIn s = m'.namesIn s := by
  have hcontext : m'.context.scopes = m.heap.scopes.next := by
    rw [moves.restored.context]
    rfl
  have hnext : m.heap.scopes.next.index < m.forked.heap.scopes.size := by
    show m.heap.scopes.size < (m.heap.scopes.push _).size
    rw [Pool.size_push]
    omega
  show ((Context.mergeCell Scopes.absorb m.context.scopes m'.context.scopes m'.heap.scopes).get
    s).globalNames = _
  unfold Context.mergeCell
  split
  · rfl
  · rcases Pool.get_modify_cases m'.heap.scopes m.context.scopes
      (·.absorb (m'.heap.scopes.get m'.context.scopes)) s with ⟨rfl, -, hget⟩ | hget <;> rw [hget]
    · refine Scopes.globalNames_absorb ?_
      -- the copy has kept its global names, and the store has them too
      have hcopy : m'.namesIn m.heap.scopes.next = m.namesIn m.context.scopes := by
        rcases moves.rel.2.names hnext (fun _ => hpos rfl) with hsame | ⟨k, howns, -⟩
        · rw [hsame]
          exact congrArg Scopes.globalNames (Pool.get_push_next _ _)
        · exact absurd (hm.1.shaped.lasting.sound.inRange howns) (Nat.lt_irrefl _)
      have hkept : m'.namesIn m.context.scopes = m.namesIn m.context.scopes := by
        rcases (steady_forked moves).names hs hpos with hsame | ⟨k, ⟨r, hl⟩, hseeded⟩
        · exact hsame
        · obtain ⟨level, hlocals⟩ := hl.localsAt
          exact hseeded.trans (hm.2.active hlocals rfl).symm
      have hsame : m'.namesIn m'.context.scopes = m'.namesIn m.context.scopes := by
        rw [hcontext, hcopy, hkept]
      intro x hx
      show x ∈ m'.namesIn m.context.scopes
      rw [← hsame]
      exact hx
    · rfl

/-- A merge adds no global variables to the store of a function. -/
theorem merged (hm : seedContract.inv m) (moves : seedContract.Moves m.forked m') :
    seedContract.Allows m (m.merged m') := by
  refine leaving hm (order_frames.merge hm.1 (seed_order moves)) moves (fun s => ?_)
    ⟨fun hs hpos => ?_⟩ (fun _ => rfl) fun {s} hs => ?_
  · show ((Context.mergeCell _ _ _ m'.heap.scopes).get s).Full
    unfold Context.mergeCell
    split
    · exact moves.inv.2.full s
    · exact full_modify moves.inv.2.full _ (fun s hs => hs.absorb _) s
  · rw [namesIn_merged hm moves hs hpos]
    exact (steady_forked moves).names hs hpos
  · -- a new store is not the one that the names of the script are added to
    have hne : m.context.scopes ≠ s := by
      rintro rfl
      exact absurd hm.1.shaped.lasting.active.inRange (Nat.not_lt.2 hs)
    show ((Context.mergeCell _ _ _ m'.heap.scopes).get s).globalNames = _
    unfold Context.mergeCell
    split
    · rfl
    · rw [Pool.get_modify_of_ne hne]
      rfl

end Machine.Seeded

/-- No step gives a function global variables that are not fields of its instance. -/
theorem seed_frames : seedContract.Frames AnyNode AnyNode where
  everywhere := ⟨fun _ _ => trivial, fun _ _ => trivial⟩
  fragment := anyNode_language.toFragment
  scripts {m} _ := anyNode_language.scriptsIn m
  code {m} _ := m.codeIn_any
  refl hm := ⟨order_frames.refl hm.1, .of_get fun _ => rfl⟩
  trans h h' := ⟨order_frames.trans h.1 h'.1, h.2.trans h.1 h'.2⟩
  -- most steps bind no variable, so the order of things is all there is to show
  console hc hm := Machine.Seeded.unstored hm (order_frames.console hc hm.1) rfl fun _ => rfl
  assign {_ _ name} value v _ moves := Machine.Seeded.updateScopes moves.inv
    (order_frames.assign value v trivial (seed_order moves)) (fun _ hs => hs.set name v _ _)
    fun hpos _ => Scopes.globalNames_set hpos name v _
  declare _ hr hm := Machine.Seeded.unstored hm (order_frames.declare trivial hr hm.1) rfl
    fun _ => rfl
  register _ accepted hd hm := Machine.Seeded.unstored hm
    (order_frames.register trivial accepted hd hm.1) rfl fun _ => rfl
  extend name _ hr hm := Machine.Seeded.unstored hm (order_frames.extend name hr hm.1) rfl
    fun _ => rfl
  allocate hbefore hknown hd hfields hm := Machine.Seeded.allocate hm
    (order_frames.allocate hbefore.1 hknown hd hfields hm.1)
  setField h field v hm := Machine.Seeded.unstored hm (order_frames.setField h field v hm.1) rfl
    (outline_modify fun i => i.outline_setField field v)
  linkIn h hm := ⟨order_frames.linkIn h hm.1, hm.2.full, hm.2.names, hm.2.active⟩
  linkOut h hm moves := Machine.Seeded.leaving hm (order_frames.linkOut h hm.1 (seed_order moves))
    moves moves.inv.2.full
    (moves.rel.2.around rfl rfl rfl (Nat.le_refl _) fun _ => rfl) (fun _ => rfl) fun _ => rfl
  linkRefused hm := Machine.Seeded.unstored hm (order_frames.linkRefused hm.1) rfl fun _ => rfl
  push v hm := Machine.Seeded.unstored hm (order_frames.push v hm.1) rfl fun _ => rfl
  dropSignal hm := Machine.Seeded.unstored hm (order_frames.dropSignal hm.1) rfl fun _ => rfl
  bindParams params args hm := Machine.Seeded.updateScopes hm
    (order_frames.bindParams params args hm.1) (fun _ hs => hs.bindParams _ params args)
    fun hpos _ => Scopes.globalNames_bindParams hpos params args
  scopeIn c hm := ⟨order_frames.scopeIn c hm.1, hm.2.full, hm.2.names, hm.2.active⟩
  scopeOut := by
    intro m m' c hm moves
    -- closing scopes leaves the global one alone
    have hout : ∀ {s : Handle},
        ((m'.closeTo m.context.level).withClause m.context.inClause).namesIn s = m'.namesIn s := by
      intro s
      show ((m'.heap.scopes.modify m'.context.scopes _).get s).globalNames = _
      rcases Pool.get_modify_cases m'.heap.scopes m'.context.scopes (·.close m.context.level) s with
        ⟨-, -, hget⟩ | hget <;> rw [hget] <;> rfl
    exact Machine.Seeded.leaving hm (order_frames.scopeOut c hm.1 (seed_order moves)) moves
      (Machine.Seeded.full_modify moves.inv.2.full _ fun _ hs => hs.close _)
      (moves.rel.2.around rfl rfl rfl (Nat.le_succ _) fun _ => hout) (fun _ => rfl) fun _ => hout
  clauseIn hm := ⟨order_frames.clauseIn hm.1, hm.2.full, hm.2.names, hm.2.active⟩
  clauseOut hm moves := Machine.Seeded.leaving hm (order_frames.clauseOut hm.1 (seed_order moves))
    moves moves.inv.2.full
    (moves.rel.2.around rfl rfl rfl (Nat.le_refl _) fun _ => rfl) (fun _ => rfl) fun _ => rfl
  callIn hm hlt := ⟨order_frames.callIn hm.1 hlt, hm.2.full, hm.2.names, hm.2.active⟩
  callOut hm hlt moves := Machine.Seeded.leaving hm
    (order_frames.callOut hm.1 hlt (seed_order moves)) moves moves.inv.2.full
    (moves.rel.2.around rfl rfl rfl (Nat.le_refl _) fun _ => rfl) (fun _ => rfl) fun _ => rfl
  methodIn hm hfound := ⟨order_frames.methodIn hm.1 hfound, Machine.Seeded.enterMethod hm hfound⟩
  methodOut hm hfound moves := Machine.Seeded.leaveMethod hm hfound moves
  fork hm := ⟨order_frames.fork hm.1, Machine.Seeded.forked hm⟩
  merge hm moves := Machine.Seeded.merged hm moves
  discard hchained hm moves := Machine.Seeded.leaving hm
    (order_frames.discard hchained hm.1 (seed_order moves)) moves moves.inv.2.full
    ⟨(Machine.Seeded.steady_forked moves).names⟩ (fun _ => rfl) fun _ => rfl

/-! ## Sessions -/

theorem seeded_new (files : Files) (console : Console) : (Machine.new files console).Seeded where
  full s := by
    have hget : (Machine.new files console).heap.scopes.get s = .empty :=
      (Pool.get_push_default Pool.empty s).trans (Pool.get_of_le (Nat.zero_le _))
    rw [hget]
    exact Scopes.full_empty
  names hl := absurd hl not_localsAt_new
  active hl := absurd hl not_localsAt_new

/-- A recovery closes the scopes of the session's own store, not the global one. -/
theorem Machine.Seeded.recover {m : Machine} (hm : m.Seeded) : m.recover.Seeded := by
  have hsame : ∀ s, m.recover.namesIn s = m.namesIn s := by
    intro s
    show ((m.heap.scopes.modify m.context.scopes _).get s).globalNames = _
    rcases Pool.get_modify_cases m.heap.scopes m.context.scopes (·.close 0) s with
      ⟨-, -, hget⟩ | hget <;> rw [hget] <;> rfl
  refine ⟨Machine.Seeded.full_modify hm.full _ fun _ hs => hs.close _, fun hl => ?_,
    fun hl heq => ?_⟩ <;> rw [hsame]
  · exact hm.names hl
  · exact hm.active hl heq

/-- **The global variables of functions are fields**, on every machine that a session can get to. -/
theorem Reachable.seeded {m : Machine} (h : Reachable m) : m.Seeded :=
  And.right <| seed_frames.inv_of_reachable anyNode_language id
    (fun files console => ⟨orderly_new files console, seeded_new files console⟩)
    (fun _ hidle hm => ⟨Reachable.orderly (.idle (.recover hidle)), hm.2.recover⟩) h

/-- **Between runs functions have no variables but the fields of their instance**, in the order in
which it has them, or none at all. -/
theorem Idle.seeded_store {m : Machine} (h : Idle m) {o : Handle} {l : Locals}
    (hl : m.LocalsAt o l) : (m.heap.scopes.get l.scopes).inner = [] ∧
      (m.namesIn l.scopes = [] ∨ m.namesIn l.scopes = (m.instanceAt o).names) := by
  have hreach := Reachable.idle h
  have hseeded := hreach.seeded
  refine ⟨(hseeded.full _).inner_eq_nil fun n x hn => ?_, hseeded.names hl⟩
  exact hreach.orderly.resting hl (h.atRest o l hl) hn

end BoxScript
