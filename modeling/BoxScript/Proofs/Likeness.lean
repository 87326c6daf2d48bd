import BoxScript.Proofs.Relocation

/-!
# Machines that differ in the locals of a function

Give a function of an instance new locals, and compare the machine with what it was. The first
machine has the old locals and the second one the new ones, in other cells. Up to the first call of
the function the old store may have values of fields that the new one does not have
(`Renewal.Waiting`). That call binds the fields in both, and from then on the cells of the one
machine hold what those of the other do.

Two machines are alike (`Renewal.Alike`) if they agree in all but that. What code reads off them is
the same, and each step of code that is taken on both leaves them alike.
-/

namespace BoxScript
namespace Renewal

variable {ρ : Renewal}

/-- The function has not been called. On the second machine its store is empty, and on the first one
it has no variables but the fields of its instance. No code works on it. -/
structure Waiting (ρ : Renewal) (active : Handle) (e : Holders) (stores' : Pool Scopes) : Prop where
  others : e.stores.Shifted ρ.scopes (· ≠ ρ.scopes.old) stores'
  fresh : stores'.get ⟨ρ.scopes.place⟩ = .empty
  away : active ≠ ρ.scopes.old
  inner : (e.stores.get ρ.scopes.old).inner = []
  names : (e.stores.get ρ.scopes.old).globalNames = [] ∨
    (e.stores.get ρ.scopes.old).globalNames = (e.instances.get ρ.owner).names
  regular : (e.instances.get ρ.owner).names.Nodup
  owner : ∀ {h}, e.Owns h ρ.scopes.old ↔ h = ρ.owner

/-- The machines agree but for the cells of locals. The function may wait for its first call only if
`waits` says so. -/
structure Alike (ρ : Renewal) (waits : Prop) (m m' : Machine) : Prop where
  context : m'.context = ρ.context m.context
  scopes : m.heap.scopes.Shifted ρ.scopes (fun _ => True) m'.heap.scopes ∨
    (waits ∧ ρ.Waiting m.context.scopes m.holders m'.heap.scopes)
  returns : m.heap.returns.Shifted ρ.returns (fun _ => True) m'.heap.returns
  instances : m.heap.instances.Mapped ρ.relocate m'.heap.instances
  functions : m'.heap.functions = m.heap.functions
  boxes : m'.heap.boxes = m.heap.boxes
  extensions : m'.heap.extensions = m.heap.extensions
  console : m'.console = m.console
  files : m'.files = m.files
  depth : m'.depth = m.depth
  chained : m'.chained = m.chained

/-! ## A function that waits -/

namespace Waiting

variable {active : Handle} {stores stores' : Pool Scopes} {instances : Pool Instance}

theorem old_lt_size (h : ρ.Waiting active ⟨stores, instances⟩ stores') :
    ρ.scopes.old.index < stores.size := Nat.lt_of_lt_of_le ρ.scopes.old_lt h.others.place

theorem place_lt_size (h : ρ.Waiting active ⟨stores, instances⟩ stores') :
    ρ.scopes.place < stores'.size := by
  have hsize := h.others.size
  have hplace : ρ.scopes.place ≤ stores.size := h.others.place
  rw [hsize]
  exact Nat.lt_succ_of_le hplace

/-- The store of the function stays as it is if code elsewhere works on other stores. -/
theorem step (h : ρ.Waiting active ⟨stores, instances⟩ stores') {active' : Handle}
    {next next' : Pool Scopes} (hothers : next.Shifted ρ.scopes (· ≠ ρ.scopes.old) next')
    (haway : active' ≠ ρ.scopes.old) (hold : next.get ρ.scopes.old = stores.get ρ.scopes.old)
    (hfresh : next'.get ⟨ρ.scopes.place⟩ = stores'.get ⟨ρ.scopes.place⟩) :
    ρ.Waiting active' ⟨next, instances⟩ next' where
  others := hothers
  fresh := hfresh.trans h.fresh
  away := haway
  inner := by
    show (next.get _).inner = []
    rw [hold]
    exact h.inner
  names := by
    show (next.get _).globalNames = [] ∨ (next.get _).globalNames = _
    rw [hold]
    exact h.names
  regular := h.regular
  owner := h.owner

theorem modify (h : ρ.Waiting active ⟨stores, instances⟩ stores') {k : Handle}
    (hk : k ≠ ρ.scopes.old) (f : Scopes → Scopes) :
    ρ.Waiting active ⟨stores.modify k f, instances⟩ (stores'.modify (ρ.scopes.moved k) f) := by
  have hmoved : ρ.scopes.moved k ≠ ⟨ρ.scopes.place⟩ := by
    rw [← ρ.scopes.moved_old]
    exact ρ.scopes.moved_ne hk
  exact h.step (h.others.modify k f) h.away (Pool.get_modify_of_ne hk f)
    (Pool.get_modify_of_ne hmoved f)

theorem push (h : ρ.Waiting active ⟨stores, instances⟩ stores') (s : Scopes) :
    ρ.Waiting active ⟨stores.push s, instances⟩ (stores'.push s) :=
  h.step (h.others.push s) h.away (Pool.get_push_of_lt h.old_lt_size s)
    (Pool.get_push_of_lt h.place_lt_size s)

theorem mergeCell (h : ρ.Waiting active ⟨stores, instances⟩ stores') {into source : Handle}
    (hinto : into ≠ ρ.scopes.old) (hsource : source ≠ ρ.scopes.old)
    (combine : Scopes → Scopes → Scopes) :
    ρ.Waiting into ⟨Context.mergeCell combine into source stores, instances⟩
      (Context.mergeCell combine (ρ.scopes.moved into) (ρ.scopes.moved source) stores') := by
  have hothers := h.others.mergeCell combine into hsource
  unfold Context.mergeCell at hothers ⊢
  by_cases heq : into = source
  · rw [if_pos heq, if_pos (congrArg _ heq)]
    exact { h with away := hinto }
  · rw [if_neg heq, if_neg (ρ.scopes.moved_ne heq), h.others.get hsource]
    exact { h.modify hinto _ with away := hinto }

/-- What becomes of instances that are there leaves their outlines, and new ones have new stores. -/
theorem instances_step (h : ρ.Waiting active ⟨stores, instances⟩ stores') {next : Pool Instance}
    (houtline : ∀ {k}, k.index < instances.size →
      (next.get k).outline = (instances.get k).outline)
    (hnew : ∀ {k}, instances.size ≤ k.index → ¬Holders.Owns ⟨stores, next⟩ k ρ.scopes.old) :
    ρ.Waiting active ⟨stores, next⟩ stores' := by
  have howns : ∀ {k}, Holders.Owns ⟨stores, next⟩ k ρ.scopes.old ↔
      Holders.Owns ⟨stores, instances⟩ k ρ.scopes.old := by
    intro k
    rcases Nat.lt_or_ge k.index instances.size with hk | hk
    · exact ⟨fun ⟨r, hr⟩ => ⟨r, hr.of_outline (houtline hk).symm⟩,
        fun ⟨r, hr⟩ => ⟨r, hr.of_outline (houtline hk)⟩⟩
    · exact ⟨fun howns => absurd howns (hnew hk),
        fun howns => absurd (Holders.owns_lt howns) (Nat.not_lt.2 hk)⟩
  have hnames : (next.get ρ.owner).names = (instances.get ρ.owner).names :=
    Instance.names_of_outline (houtline (Holders.owns_lt (h.owner.2 rfl)))
  constructor
  case others => exact h.others
  case fresh => exact h.fresh
  case away => exact h.away
  case inner => exact h.inner
  case names =>
    show _ ∨ _ = (next.get ρ.owner).names
    rw [hnames]
    exact h.names
  case regular =>
    show (next.get ρ.owner).names.Nodup
    rw [hnames]
    exact h.regular
  case owner => exact howns.trans h.owner

/-- **The first call ends the waiting**: it makes the two stores the same. -/
theorem seeded (h : ρ.Waiting active ⟨stores, instances⟩ stores') {fields : List (String × Value)}
    (hfields : (instances.get ρ.owner).fields = fields) :
    (stores.modify ρ.scopes.old (·.seed fields)).Shifted ρ.scopes (fun _ => True)
      (stores'.modify (ρ.scopes.moved ρ.scopes.old) (·.seed fields)) := by
  refine (h.others.modify ρ.scopes.old _).complete ?_
  rw [ρ.scopes.moved_old, Pool.get_modify_self h.place_lt_size, Pool.get_modify_self h.old_lt_size,
    h.fresh]
  have hnames : (instances.get ρ.owner).names = fields.map (·.1) := by rw [← hfields]; rfl
  refine (Scopes.seed_eq_seed_empty ?_ h.inner ?_).symm
  · rw [← hnames]
    exact h.regular
  · rw [← hnames]
    exact h.names

end Waiting

/-! ## What code reads -/

namespace Alike

variable {waits : Prop} {m m' : Machine}

theorem mono {waits' : Prop} (h : ρ.Alike waits m m') (hw : waits → waits') :
    ρ.Alike waits' m m' :=
  { h with scopes := h.scopes.imp id fun hs => ⟨hw hs.1, hs.2⟩ }

/-- While the function waits, the code works elsewhere. -/
theorem split (h : ρ.Alike waits m m') : ∃ waits' : Prop,
    (waits' → waits ∧ m.context.scopes ≠ ρ.scopes.old) ∧ ρ.Alike waits' m m' := by
  rcases h.scopes with hs | ⟨hw, hs⟩
  · exact ⟨False, False.elim, { h with scopes := .inl hs }⟩
  · exact ⟨True, fun _ => ⟨hw, hs.away⟩, { h with scopes := .inr ⟨trivial, hs⟩ }⟩

/-- A store that is in use holds the same in both machines. -/
theorem get_scopes (h : ρ.Alike waits m m') {k : Handle} (hk : waits → k ≠ ρ.scopes.old) :
    m'.heap.scopes.get (ρ.scopes.moved k) = m.heap.scopes.get k := by
  rcases h.scopes with hs | ⟨hw, hs⟩
  · exact hs.get trivial
  · exact hs.others.get (hk hw)

/-- The place of the renewed store is among those there are, or it is the next one. -/
theorem place_le (h : ρ.Alike waits m m') : ρ.scopes.place ≤ m.heap.scopes.size := by
  rcases h.scopes with hs | hs
  · exact hs.place
  · exact hs.2.others.place

theorem next_scopes (h : ρ.Alike waits m m') :
    ρ.scopes.moved m.heap.scopes.next = m'.heap.scopes.next := by
  rcases h.scopes with hs | hs
  · exact hs.next
  · exact hs.2.others.next

theorem next_ne (h : ρ.Alike waits m m') : m.heap.scopes.next ≠ ρ.scopes.old := by
  intro heq
  have hold := ρ.scopes.old_lt
  have hplace := h.place_le
  have hindex : m.heap.scopes.size = ρ.scopes.old.index := congrArg Handle.index heq
  omega

theorem level (h : ρ.Alike waits m m') : m'.context.level = m.context.level := by
  rw [h.context]
  rfl

theorem inClause (h : ρ.Alike waits m m') : m'.context.inClause = m.context.inClause := by
  rw [h.context]
  rfl

theorem table (h : ρ.Alike waits m m') : m'.context.boxes = m.context.boxes := by
  rw [h.context]
  rfl

/-- Code sees the same variables. -/
theorem store (h : ρ.Alike waits m m') : m'.scopes = m.scopes := by
  obtain ⟨waits', haway, hsplit⟩ := h.split
  unfold Machine.scopes
  rw [h.context]
  exact hsplit.get_scopes fun hw => (haway hw).2

theorem stack (h : ρ.Alike waits m m') : m'.returns = m.returns := by
  unfold Machine.returns
  rw [h.context]
  exact h.returns.get trivial

theorem pending (h : ρ.Alike waits m m') : m'.pending = m.pending := by
  unfold Machine.pending
  rw [h.stack]

theorem signal (h : ρ.Alike waits m m') : m'.signal = m.signal := by
  unfold Machine.signal
  rw [h.stack]

theorem functions_eq (h : ρ.Alike waits m m') : Machine.functions m' = Machine.functions m := by
  unfold Machine.functions
  rw [h.functions, h.context]
  rfl

theorem boxes_eq (h : ρ.Alike waits m m') : Machine.boxes m' = Machine.boxes m := by
  unfold Machine.boxes
  rw [h.boxes, h.context]
  rfl

theorem extensions_eq (h : ρ.Alike waits m m') : Machine.extensions m' = Machine.extensions m := by
  unfold Machine.extensions
  rw [h.extensions, h.context]
  rfl

theorem instanceAt (h : ρ.Alike waits m m') (o : Handle) :
    m'.instanceAt o = ρ.relocate (m.instanceAt o) := h.instances.get o

theorem printable (h : ρ.Alike waits m m') (v : Value) :
    m'.heap.printable v = m.heap.printable v := ρ.printableIn_eq h.instances [] v

theorem text (h : ρ.Alike waits m m') : m'.heap.text = m.heap.text := by
  funext v
  cases v <;> first | rfl | exact h.printable _

/-! ## Steps -/

theorem withConsole (h : ρ.Alike waits m m') (c : Console) :
    ρ.Alike waits { m with console := c } { m' with console := c } :=
  { h with console := rfl }

theorem withDepth (h : ρ.Alike waits m m') (depth : Nat) :
    ρ.Alike waits { m with depth := depth } { m' with depth := depth } :=
  { h with depth := rfl }

theorem withChained (h : ρ.Alike waits m m') (chained : Nat) :
    ρ.Alike waits { m with chained := chained } { m' with chained := chained } :=
  { h with chained := rfl }

/-- A context may be put in use unless its store is the one that is waited for. -/
theorem inContext (h : ρ.Alike waits m m') {c : Context} (hc : waits → c.scopes ≠ ρ.scopes.old) :
    ρ.Alike waits { m with context := c } { m' with context := ρ.context c } :=
  { h with
    context := rfl
    scopes := h.scopes.imp id fun hs => ⟨hs.1, { hs.2 with away := hc hs.1 }⟩ }

theorem atLevel (h : ρ.Alike waits m m') (level : Nat) :
    ρ.Alike waits (m.atLevel level) (m'.atLevel level) :=
  { h with context := congrArg (fun c : Context => { c with level := level }) h.context }

theorem withClause (h : ρ.Alike waits m m') (inClause : Bool) :
    ρ.Alike waits (m.withClause inClause) (m'.withClause inClause) :=
  { h with context := congrArg (fun c : Context => { c with inClause := inClause }) h.context }

theorem updateFunctions (h : ρ.Alike waits m m') (f : Functions → Functions) :
    ρ.Alike waits (m.updateFunctions f) (m'.updateFunctions f) :=
  { h with
    functions := by
      show m'.heap.functions.modify m'.context.functions f = _
      rw [h.functions, h.context]
      rfl }

theorem updateBoxesAt (h : ρ.Alike waits m m') (table : Handle) (f : Boxes → Boxes) :
    ρ.Alike waits (m.updateBoxesAt table f) (m'.updateBoxesAt table f) :=
  { h with boxes := congrArg (·.modify table f) h.boxes }

theorem updateExtensions (h : ρ.Alike waits m m') (f : Extensions → Extensions) :
    ρ.Alike waits (m.updateExtensions f) (m'.updateExtensions f) :=
  { h with
    extensions := by
      show m'.heap.extensions.modify m'.context.extensions f = _
      rw [h.extensions, h.context]
      rfl }

theorem updateReturns (h : ρ.Alike waits m m') (f : Returns → Returns) :
    ρ.Alike waits (m.updateReturns f) (m'.updateReturns f) :=
  { h with
    returns := by
      show (m.heap.returns.modify m.context.returns f).Shifted ρ.returns _
        (m'.heap.returns.modify m'.context.returns f)
      rw [h.context]
      exact h.returns.modify m.context.returns f }

theorem updateScopesAt (h : ρ.Alike waits m m') {k : Handle} (hk : waits → k ≠ ρ.scopes.old)
    (f : Scopes → Scopes) :
    ρ.Alike waits (m.updateScopesAt k f) (m'.updateScopesAt (ρ.scopes.moved k) f) :=
  { h with
    scopes := h.scopes.imp (fun hs => hs.modify k f) fun hs => ⟨hs.1, hs.2.modify (hk hs.1) f⟩ }

theorem updateScopes (h : ρ.Alike waits m m') (f : Scopes → Scopes) :
    ρ.Alike waits (m.updateScopes f) (m'.updateScopes f) := by
  obtain ⟨waits', haway, hsplit⟩ := h.split
  unfold Machine.updateScopes
  rw [h.context]
  exact (hsplit.updateScopesAt (fun hw => (haway hw).2) f).mono fun hw => (haway hw).1

theorem closeTo (h : ρ.Alike waits m m') (level : Nat) :
    ρ.Alike waits (m.closeTo level) (m'.closeTo level) := (h.updateScopes _).atLevel level

theorem dropSignal (h : ρ.Alike waits m m') : ρ.Alike waits m.dropSignal m'.dropSignal :=
  h.updateReturns _

theorem noteSignal (h : ρ.Alike waits m m') : ρ.Alike waits m.noteSignal m'.noteSignal := by
  unfold Machine.noteSignal
  rw [h.console, h.signal, h.printable]
  split
  · exact h.withConsole _
  · exact h

/-- A change of an instance that leaves its locals where they are. -/
theorem updateInstance (h : ρ.Alike waits m m') (o : Handle) {f f' : Instance → Instance}
    (hf : ∀ i, f' (ρ.relocate i) = ρ.relocate (f i)) (houtline : ∀ i, (f i).outline = i.outline) :
    ρ.Alike waits (m.updateInstance o f) (m'.updateInstance o f') :=
  { h with
    instances := h.instances.modify o hf
    scopes := h.scopes.imp id fun hs => ⟨hs.1, hs.2.instances_step
      (fun _ => outline_modify houtline _) fun {k} hk howns => by
        have hlt : k.index < (m.heap.instances.modify o f).size := Holders.owns_lt howns
        rw [Pool.size_modify] at hlt
        exact absurd hlt (Nat.not_lt.2 hk)⟩ }

theorem setField (h : ρ.Alike waits m m') (o : Handle) (field : String) (v : Value) :
    ρ.Alike waits (m.updateInstance o (·.setField field v))
      (m'.updateInstance o (·.setField field v)) :=
  h.updateInstance o (ρ.setField_relocate field v) fun i => i.outline_setField field v

theorem setLevel (h : ρ.Alike waits m m') (o : Handle) (signature : Signature) (level : Nat) :
    ρ.Alike waits (m.updateInstance o (·.setLevel signature level))
      (m'.updateInstance o (·.setLevel signature level)) :=
  h.updateInstance o (ρ.setLevel_relocate signature level)
    fun i => i.outline_setLevel signature level

/-! ## New instances -/

/-- New locals take the next cells on both machines. -/
theorem makeMethodsFrom (h : ρ.Alike waits m m') (made : List Slot) (specs : List MethodSpec) :
    (makeMethodsFrom (made.map ρ.slot) specs m'.heap).1
        = (makeMethodsFrom made specs m.heap).1.map ρ.slot ∧
      ρ.Alike waits { m with heap := (BoxScript.makeMethodsFrom made specs m.heap).2 }
        { m' with heap := (BoxScript.makeMethodsFrom (made.map ρ.slot) specs m'.heap).2 } := by
  induction specs generalizing m m' made with
  | nil => exact ⟨List.map_reverse.symm, h⟩
  | cons f specs ih =>
    have hlocals : ρ.locals ⟨m.heap.scopes.next, m.heap.returns.next, 0⟩
        = ⟨m'.heap.scopes.next, m'.heap.returns.next, 0⟩ := by
      unfold Renewal.locals
      rw [h.returns.next, h.next_scopes]
    have hcells : ρ.Alike waits
        { m with heap := { m.heap with
          scopes := m.heap.scopes.push .empty, returns := m.heap.returns.push [] } }
        { m' with heap := { m'.heap with
          scopes := m'.heap.scopes.push .empty, returns := m'.heap.returns.push [] } } :=
      { h with
        scopes := h.scopes.imp (fun hs => hs.push _) fun hs => ⟨hs.1, hs.2.push _⟩
        returns := h.returns.push [] }
    have hrest := ih hcells
      (.function f.routine f.access ⟨m.heap.scopes.next, m.heap.returns.next, 0⟩ :: made)
    rw [List.map_cons, Renewal.slot, hlocals] at hrest
    exact hrest

/-- A new instance has new stores, and the fields of one are no functions. -/
theorem not_hasLocals_new (h : ρ.Alike waits m m') (d : BoxDef) {fields : List Slot}
    (hfields : ∀ slot ∈ fields, ρ.slot slot = slot) (r : Handle) :
    ¬(⟨d.name, fields ++ (BoxScript.makeMethodsFrom [] d.methods m.heap).1⟩ : Instance).HasLocals
      ρ.scopes.old r := by
  rintro ⟨routine, access, level, hslot⟩
  rcases List.mem_append.1 hslot with hslot | hslot
  · injection hfields _ hslot with _ _ hlocals
    exact ρ.scopes.moved_old_ne (congrArg Locals.scopes hlocals)
  · obtain ⟨f, -, locals, heq, hlow, -⟩ :=
      ((makeMethodsFrom_grown [] d.methods m.heap).2 _ hslot).resolve_left List.not_mem_nil
    cases heq
    have hold := ρ.scopes.old_lt
    have hplace := h.place_le
    exact absurd (show m.heap.scopes.size ≤ ρ.scopes.old.index from hlow) (by omega)

/-- A new instance is the same but for the cells of its locals. -/
theorem allocate (h : ρ.Alike waits m m') (d : BoxDef) {fields : List Slot}
    (hfields : ∀ slot ∈ fields, ρ.slot slot = slot) :
    (allocate d fields m').result = (allocate d fields m).result ∧
      ρ.Alike waits (allocate d fields m).machine (allocate d fields m').machine := by
  obtain ⟨hslots, hcells⟩ := h.makeMethodsFrom [] d.methods
  rw [List.map_nil] at hslots hcells
  have hnew : (⟨d.name, fields ++ (BoxScript.makeMethodsFrom [] d.methods m'.heap).1⟩ : Instance)
      = ρ.relocate ⟨d.name, fields ++ (BoxScript.makeMethodsFrom [] d.methods m.heap).1⟩ := by
    have hsame : fields.map ρ.slot = fields := (List.map_congr_left hfields).trans (List.map_id _)
    unfold relocate
    rw [List.map_append, hsame, hslots]
  refine ⟨congrArg Result.ok hcells.instances.next, { hcells with scopes := ?_, instances := ?_ }⟩
  · refine hcells.scopes.imp id fun hs => ⟨hs.1, Waiting.instances_step hs.2 (fun hk => ?_) ?_⟩
    · exact congrArg Instance.outline (Pool.get_push_of_lt hk _)
    · rintro k hk ⟨r, hr⟩
      change ((BoxScript.allocate d fields m).machine.instanceAt k).HasLocals _ r at hr
      rw [instanceAt_allocate] at hr
      split at hr
      · exact h.not_hasLocals_new d hfields r hr
      · rw [show (BoxScript.makeMethodsFrom [] d.methods m.heap).2.instances = m.heap.instances from
          instances_makeMethodsFrom _ _ _] at hk
        have hlt : k.index < m.heap.instances.size :=
          Holders.owns_lt (e := m.holders) ⟨r, hr⟩
        exact absurd hlt (Nat.not_lt.2 hk)
  · show ((BoxScript.makeMethodsFrom [] d.methods m.heap).2.instances.push _).Mapped ρ.relocate
      ((BoxScript.makeMethodsFrom [] d.methods m'.heap).2.instances.push _)
    rw [hnew]
    exact hcells.instances.push _

/-! ## Ways in and out -/

section Methods

variable {o : Handle} {signature : Signature} {routine : Routine} {access : Access}
  {locals : Locals}

/-- The fields are bound in the store of the method that is called. If it is the one that waits, it
waits no longer. -/
theorem seeded (h : ρ.Alike waits m m') (hl : m.holders.Owns o locals.scopes) : ∃ waits' : Prop,
    (waits' → waits ∧ m.context.scopes ≠ ρ.scopes.old ∧ locals.scopes ≠ ρ.scopes.old) ∧
      ρ.Alike waits' (m.updateScopesAt locals.scopes (·.seed (m.instanceAt o).fields))
        (m'.updateScopesAt (ρ.scopes.moved locals.scopes) (·.seed (m'.instanceAt o).fields)) := by
  rw [h.instanceAt, fields_relocate]
  rcases h.scopes with hs | ⟨hw, hs⟩
  · exact ⟨False, False.elim, { h with scopes := .inl (hs.modify locals.scopes _) }⟩
  · by_cases hlocals : locals.scopes = ρ.scopes.old
    · have howner : o = ρ.owner := by
        rw [hlocals] at hl
        exact hs.owner.1 hl
      rw [hlocals, howner]
      exact ⟨False, False.elim, { h with scopes := .inl (hs.seeded rfl) }⟩
    · exact ⟨True, fun _ => ⟨hw, hs.away, hlocals⟩,
        { h with scopes := .inr ⟨trivial, hs.modify hlocals _⟩ }⟩

/-- The way into a method. -/
theorem enterMethod (h : ρ.Alike waits m m')
    (hfound : (m.instanceAt o).method? signature = some (routine, access, locals)) (active : Nat) :
    ∃ waits' : Prop,
      (waits' → waits ∧ m.context.scopes ≠ ρ.scopes.old ∧ locals.scopes ≠ ρ.scopes.old) ∧
        ρ.Alike waits' (enterMethod o signature locals active m)
          (enterMethod o signature (ρ.locals locals) active m') := by
  obtain ⟨waits', haway, hseeded⟩ := h.seeded (localsAt_of_method? hfound).owns
  have hentered := (hseeded.setLevel o signature active).inContext
    (c := ⟨locals.scopes, m.heap.functions.next, m.context.boxes, locals.returns,
      m.context.extensions, active, false⟩) fun hw => (haway hw).2.2
  have hroutines : (m'.instanceAt o).routines = (m.instanceAt o).routines := by
    rw [h.instanceAt, routines_relocate]
  refine ⟨waits', haway, { hentered with context := ?_, functions := ?_ }⟩
  · show (⟨(ρ.locals locals).scopes, m'.heap.functions.next, m'.context.boxes,
      (ρ.locals locals).returns, m'.context.extensions, active, false⟩ : Context) = _
    rw [h.context, h.functions]
    rfl
  · show m'.heap.functions.push ((m'.instanceAt o).routines.foldl _ m'.functions) = _
    rw [h.functions, h.functions_eq, hroutines]
    rfl

/-- The way out of a method, back to code that works elsewhere. -/
theorem leaveMethod (h : ρ.Alike waits m m') (caller : Context)
    (haway : waits → caller.scopes ≠ ρ.scopes.old ∧ locals.scopes ≠ ρ.scopes.old)
    (o : Handle) (signature : Signature) (closed level : Nat) :
    ρ.Alike waits (leaveMethod o signature locals caller closed level m)
      (leaveMethod o signature (ρ.locals locals) (ρ.context caller) closed level m') := by
  have hclosed := h.updateScopesAt (k := locals.scopes) (fun hw => (haway hw).2) (·.close closed)
  have hback := (hclosed.setLevel o signature level).inContext (c := caller)
    fun hw => (haway hw).1
  have hstore := hback.get_scopes (k := locals.scopes) fun hw => (haway hw).2
  refine hback.updateInstance o (fun i => ?_) fun i => i.outline_mapFields _
  refine (ρ.mapFields_relocate _ i).trans (congrArg (fun s : Scopes =>
    ρ.relocate (i.mapFields fun name value => (s.lookup name 0).getD value)) ?_)
  exact hstore

end Methods

/-- The way into an imported script. -/
theorem forked (h : ρ.Alike waits m m') : ρ.Alike waits m.forked m'.forked where
  context := by
    have hscopes : m'.heap.scopes.next = ρ.scopes.moved m.heap.scopes.next := h.next_scopes.symm
    show Context.next m'.heap m'.context.level m'.context.inClause = _
    unfold Context.next
    rw [hscopes, ← h.returns.next, h.functions, h.boxes, h.extensions, h.level, h.inClause]
    rfl
  -- the copy is a new store, so it is not the one that is waited for
  scopes := by
    show (m.heap.scopes.push m.scopes).Shifted _ _ (m'.heap.scopes.push m'.scopes) ∨
      (waits ∧ ρ.Waiting m.heap.scopes.next ⟨m.heap.scopes.push m.scopes, m.heap.instances⟩
        (m'.heap.scopes.push m'.scopes))
    rw [h.store]
    exact h.scopes.imp (fun hs => hs.push _) fun hs =>
      ⟨hs.1, { hs.2.push _ with away := h.next_ne }⟩
  returns := by
    show (m.heap.returns.push m.returns).Shifted _ _ (m'.heap.returns.push m'.returns)
    rw [h.stack]
    exact h.returns.push _
  instances := h.instances
  functions := by
    show m'.heap.functions.push m'.functions = _
    rw [h.functions, h.functions_eq]
    rfl
  boxes := by
    show m'.heap.boxes.push m'.boxes = _
    rw [h.boxes, h.boxes_eq]
    rfl
  extensions := by
    show m'.heap.extensions.push m'.extensions = _
    rw [h.extensions, h.extensions_eq]
    rfl
  console := h.console
  files := h.files
  depth := h.depth
  chained := h.chained

section Scripts

variable {sub sub' : Machine}

/-- The way out of a script that has ended well. -/
theorem merged (h : ρ.Alike waits m m') (haway : waits → m.context.scopes ≠ ρ.scopes.old)
    (hsub : ρ.Alike waits sub sub') : ρ.Alike waits (m.merged sub) (m'.merged sub') where
  context := by
    show ({ m'.context with level := sub'.context.level, inClause := sub'.context.inClause } :
      Context) = _
    rw [h.context, hsub.level, hsub.inClause]
    rfl
  -- the stores of the script are there in both; none of them is the one that is waited for
  scopes := by
    have hpool : (m'.merged sub').heap.scopes = Context.mergeCell Scopes.absorb
        (ρ.scopes.moved m.context.scopes) (ρ.scopes.moved sub.context.scopes) sub'.heap.scopes := by
      show Context.mergeCell _ m'.context.scopes sub'.context.scopes sub'.heap.scopes = _
      rw [h.context, hsub.context]
      rfl
    rw [hpool]
    exact hsub.scopes.imp (fun hs => hs.mergeCell _ _ trivial) fun hs =>
      ⟨hs.1, hs.2.mergeCell (haway hs.1) hs.2.away Scopes.absorb⟩
  returns := by
    show (Context.mergeCell (fun a b => a ++ b.drop m.returns.length) m.context.returns
        sub.context.returns sub.heap.returns).Shifted _ _
      (Context.mergeCell (fun a b => a ++ b.drop m'.returns.length) m'.context.returns
        sub'.context.returns sub'.heap.returns)
    rw [h.context, hsub.context, h.stack]
    exact hsub.returns.mergeCell _ _ trivial
  instances := hsub.instances
  functions := by
    show Context.mergeCell _ m'.context.functions sub'.context.functions sub'.heap.functions = _
    rw [h.context, hsub.context, hsub.functions]
    rfl
  boxes := by
    show Context.mergeCell _ m'.context.boxes sub'.context.boxes sub'.heap.boxes = _
    rw [h.context, hsub.context, hsub.boxes]
    rfl
  extensions := by
    show Context.mergeCell _ m'.context.extensions sub'.context.extensions sub'.heap.extensions = _
    rw [h.context, hsub.context, hsub.extensions]
    rfl
  console := hsub.console
  files := hsub.files
  depth := h.depth
  chained := by
    show max m'.chained sub'.chained = _
    rw [h.chained, hsub.chained]
    rfl

/-- The way out of a script that has failed. -/
theorem discarded (h : ρ.Alike waits m m') (haway : waits → m.context.scopes ≠ ρ.scopes.old)
    (hsub : ρ.Alike waits sub sub') (chained : Nat) :
    ρ.Alike waits (m.discarded sub chained) (m'.discarded sub' chained) := by
  have hback := ((hsub.inContext (c := m.context) haway).withDepth m.depth).withChained chained
  unfold Machine.discarded
  rw [h.context, h.depth]
  exact hback

end Scripts

end Alike
end Renewal
end BoxScript
