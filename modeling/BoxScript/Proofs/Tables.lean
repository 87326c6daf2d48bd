import BoxScript.Proofs.Course
import BoxScript.Proofs.Grammar
import BoxScript.Proofs.Instances

/-!
# The tables of a session

The functions, definitions and extensions that a session collects were all read by the parser at
some time, and they stay in any fragment that they are in while tables are copied, merged and
switched. Also the cells for return signals that the context and the functions of instances name are
there. With the grammar for the fragment, `Machine.Formed` holds on every machine that a session can
get to.

A call begins when its arguments have been evaluated, and an imported script when its path has been.
The machines on which they begin are between two steps of a statement (`Attained`), and a contract
that allows all steps holds on these too.
-/

namespace BoxScript

/-! ## Entries of tables -/

section Entries

variable {κ α : Type} [DecidableEq κ] {P : κ → α → Prop}

/-- The entries of a table are in `P` with their keys. -/
def Dict.EntriesIn (d : Dict κ α) (P : κ → α → Prop) : Prop := ∀ k a, d.get? k = some a → P k a

theorem Dict.entriesIn_empty : (Dict.empty : Dict κ α).EntriesIn P := by
  intro k a h
  cases h

theorem Dict.EntriesIn.insert {d : Dict κ α} (hd : d.EntriesIn P) {k : κ} {a : α} (ha : P k a) :
    (d.insert k a).EntriesIn P := by
  intro k' a' h
  rw [get?_insert] at h
  split at h
  · next hk =>
    cases h
    exact hk ▸ ha
  · exact hd k' a' h

theorem Dict.EntriesIn.erase {d : Dict κ α} (hd : d.EntriesIn P) (k : κ) :
    (d.erase k).EntriesIn P := by
  intro k' a' h
  rw [get?_erase] at h
  split at h
  · cases h
  · exact hd k' a' h

/-- A table keeps its entries, and gets those of the other one under new keys. -/
theorem Dict.get?_union (d e : Dict κ α) (k : κ) :
    (d.union e).get? k = (d.get? k).or (e.get? k) := by
  obtain ⟨entries⟩ := e
  unfold union
  induction entries generalizing d with
  | nil => exact (Option.or_none).symm
  | cons entry rest ih =>
    obtain ⟨k', a⟩ := entry
    rw [List.foldl_cons, ih, get?_insertNew]
    show _ = (d.get? k).or (if k = k' then some a else find? k rest)
    by_cases hk : k = k'
    · subst hk
      cases d.get? k <;> simp
    · rw [if_neg hk, if_neg hk]
      rfl

theorem Dict.EntriesIn.union {d e : Dict κ α} (hd : d.EntriesIn P) (he : e.EntriesIn P) :
    (d.union e).EntriesIn P := by
  intro k a h
  rw [get?_union] at h
  rcases Option.or_eq_some_iff.1 h with h | ⟨-, h⟩
  · exact hd k a h
  · exact he k a h

/-- The entries of all tables are in `P` with their keys. -/
def Pool.EntriesIn (p : Pool (Dict κ α)) (P : κ → α → Prop) : Prop := ∀ h, (p.get h).EntriesIn P

/-- One table of the pool is changed, so that its entries stay in `P`. -/
theorem Pool.EntriesIn.modify {p : Pool (Dict κ α)} (hp : p.EntriesIn P) (h : Handle)
    {f : Dict κ α → Dict κ α} (hf : ∀ {d}, d.EntriesIn P → (f d).EntriesIn P) :
    (p.modify h f).EntriesIn P := by
  intro k
  rcases get_modify_cases p h f k with ⟨-, -, hget⟩ | hget
  · rw [hget]
    exact hf (hp k)
  · rw [hget]
    exact hp k

theorem Pool.EntriesIn.push {p : Pool (Dict κ α)} (hp : p.EntriesIn P) {d : Dict κ α}
    (hd : d.EntriesIn P) : (p.push d).EntriesIn P := by
  intro k
  by_cases hk : k = p.next
  · subst hk
    rw [get_push_next]
    exact hd
  · rw [get_push_of_ne hk]
    exact hp k

/-- A merge of two tables of the pool makes no other entries. -/
theorem Pool.EntriesIn.mergeCell {p : Pool (Dict κ α)} (hp : p.EntriesIn P)
    (into source : Handle) : (Context.mergeCell Dict.union into source p).EntriesIn P := by
  unfold Context.mergeCell
  split
  · exact hp
  · exact hp.modify into fun hd => hd.union (hp source)

/-- A new machine has empty tables. -/
theorem Pool.entriesIn_new : ((Pool.empty : Pool (Dict κ α)).push .empty).EntriesIn P :=
  Pool.EntriesIn.push (fun h => by rw [Pool.get_of_le (Nat.zero_le _)]; exact Dict.entriesIn_empty)
    Dict.entriesIn_empty

/-- The routines go into a table under their signatures. -/
theorem Dict.EntriesIn.insertAll {P : Signature → Routine → Prop} {routines : List Routine}
    (hroutines : ∀ r ∈ routines, P r.signature r) {d : Dict Signature Routine}
    (hd : d.EntriesIn P) :
    (routines.foldl (fun d r => d.insert r.signature r) d).EntriesIn P := by
  induction routines generalizing d with
  | nil => exact hd
  | cons r rest ih =>
    obtain ⟨hfirst, hrest⟩ := List.forall_mem_cons.1 hroutines
    exact ih hrest (hd.insert hfirst)

/-- The entries of a table are in `P`, whatever their keys. -/
def Dict.AllIn (d : Dict κ α) (P : α → Prop) : Prop := ∀ k a, d.get? k = some a → P a

/-- The entries of all tables are in `P`, whatever their keys. -/
def Pool.AllIn (p : Pool (Dict κ α)) (P : α → Prop) : Prop := ∀ h, (p.get h).AllIn P

section Whole

variable {P : α → Prop} {d e : Dict κ α} {p : Pool (Dict κ α)}

theorem Dict.allIn_empty : (Dict.empty : Dict κ α).AllIn P := entriesIn_empty

theorem Dict.AllIn.insert (hd : d.AllIn P) (k : κ) {a : α} (ha : P a) : (d.insert k a).AllIn P :=
  EntriesIn.insert (P := fun _ => P) hd ha

theorem Dict.AllIn.erase (hd : d.AllIn P) (k : κ) : (d.erase k).AllIn P :=
  EntriesIn.erase (P := fun _ => P) hd k

theorem Dict.AllIn.union (hd : d.AllIn P) (he : e.AllIn P) : (d.union e).AllIn P :=
  EntriesIn.union (P := fun _ => P) hd he

theorem Pool.AllIn.modify (hp : p.AllIn P) (h : Handle) {f : Dict κ α → Dict κ α}
    (hf : ∀ {d}, d.AllIn P → (f d).AllIn P) : (p.modify h f).AllIn P :=
  EntriesIn.modify (P := fun _ => P) hp h hf

theorem Pool.AllIn.push (hp : p.AllIn P) (hd : d.AllIn P) : (p.push d).AllIn P :=
  EntriesIn.push (P := fun _ => P) hp hd

theorem Pool.AllIn.mergeCell (hp : p.AllIn P) (into source : Handle) :
    (Context.mergeCell Dict.union into source p).AllIn P :=
  EntriesIn.mergeCell (P := fun _ => P) hp into source

end Whole

end Entries

/-! ## The machine -/

variable {N S : Node → Prop}

/-- All code on the machine and in its scripts is in a fragment, and the cells for signals are
there. -/
structure Machine.Formed (N S : Node → Prop) (m : Machine) : Prop where
  code : m.CodeIn N (Routine.BodyIn S)
  scripts : m.ScriptsIn S
  returns : m.context.returns.index < m.heap.returns.size
  slots : ∀ {h s r}, (m.instanceAt h).HasLocals s r → r.index < m.heap.returns.size

/-- The machine stays well formed, and keeps its cells for signals. -/
def formContract (N S : Node → Prop) : Contract where
  lax := False
  inv := Machine.Formed N S
  rel m m' := m.heap.returns.size ≤ m'.heap.returns.size

namespace Machine.Formed

variable {m m' : Machine}

/-- A step that changes no table and no outline. -/
theorem untouched (hm : m.Formed N S) (hfunctions : m'.heap.functions = m.heap.functions)
    (hboxes : m'.heap.boxes = m.heap.boxes) (hextensions : m'.heap.extensions = m.heap.extensions)
    (hinstances : ∀ h, (m'.instanceAt h).outline = (m.instanceAt h).outline)
    (hsize : m.heap.returns.size ≤ m'.heap.returns.size)
    (hcontext : m'.context.returns = m.context.returns) (hfiles : m'.files = m.files) :
    m'.Formed N S where
  scripts := by
    unfold ScriptsIn
    rw [hfiles]
    exact hm.scripts
  code :=
    { functions := by
        rw [hfunctions]
        exact hm.code.functions
      boxes := by
        rw [hboxes]
        exact hm.code.boxes
      extensions := by
        rw [hextensions]
        exact hm.code.extensions
      instances := fun h r hr =>
        hm.code.instances h r (Instance.routines_of_outline (hinstances h).symm hr) }
  returns := by
    rw [hcontext]
    exact Nat.lt_of_lt_of_le hm.returns hsize
  slots {h _ _} hl := Nat.lt_of_lt_of_le (hm.slots (hl.of_outline (hinstances h).symm)) hsize

/-- A step that changes nothing on the heap but variables. -/
theorem alike (hm : m.Formed N S) (hheap : m'.heap = { m.heap with scopes := m'.heap.scopes })
    (hcontext : m'.context.returns = m.context.returns) (hfiles : m'.files = m.files) :
    m'.Formed N S := by
  refine hm.untouched ?_ ?_ ?_ (fun h => ?_) ?_ hcontext hfiles
  · rw [hheap]
  · rw [hheap]
  · rw [hheap]
  · unfold instanceAt
    rw [hheap]
  · exact Nat.le_of_eq (by rw [hheap])

/-- The counter of made-up names is no code. -/
theorem counting (hm : m.Formed N S) (chained : Nat) :
    Machine.Formed N S { m with chained := chained } := hm.alike rfl rfl rfl

theorem modifyReturns (hm : m.Formed N S) (f : Returns → Returns) :
    (m.updateReturns f).Formed N S :=
  hm.untouched rfl rfl rfl (fun _ => rfl) (Nat.le_of_eq (Pool.size_modify _ _ _).symm) rfl rfl

theorem modifyFunctions (hm : m.Formed N S) (h : Handle) {f : Functions → Functions}
    (hf : ∀ {d : Functions}, d.AllIn (Routine.BodyIn S) → (f d).AllIn (Routine.BodyIn S)) :
    Machine.Formed N S
      { m with heap := { m.heap with functions := m.heap.functions.modify h f } } where
  code := { hm.code with functions := Pool.AllIn.modify hm.code.functions h hf }
  scripts := hm.scripts
  returns := hm.returns
  slots := hm.slots

/-- One table of definitions changes, and has code of the form. -/
theorem modifyBoxes (hm : m.Formed N S) (h : Handle) {f : Boxes → Boxes}
    (hf : ∀ {d : Boxes}, d.AllIn (BoxDef.In N (Routine.BodyIn S)) →
      (f d).AllIn (BoxDef.In N (Routine.BodyIn S))) :
    Machine.Formed N S { m with heap := { m.heap with boxes := m.heap.boxes.modify h f } } where
  code := { hm.code with boxes := Pool.AllIn.modify hm.code.boxes h hf }
  scripts := hm.scripts
  returns := hm.returns
  slots := hm.slots

theorem modifyExtensions (hm : m.Formed N S) (h : Handle) {f : Extensions → Extensions}
    (hf : ∀ {d : Extensions}, d.AllIn (·.routine.BodyIn S) →
      (f d).AllIn (·.routine.BodyIn S)) :
    Machine.Formed N S
      { m with heap := { m.heap with extensions := m.heap.extensions.modify h f } } where
  code := { hm.code with
    extensions := Pool.AllIn.modify (P := fun e : Extension => e.routine.BodyIn S)
      hm.code.extensions h hf }
  scripts := hm.scripts
  returns := hm.returns
  slots := hm.slots

/-- An instance of a well formed definition. -/
theorem allocate (hm : m.Formed N S) {d : BoxDef} (hd : d.In N (Routine.BodyIn S))
    {fields : List Slot} (hfields : FieldSlots fields d.fields) :
    (BoxScript.allocate d fields m).machine.Formed N S := by
  obtain ⟨methods, heap, grown, hmethods, hmade⟩ := allocate_cases d fields m
  rw [hmade]
  -- a function slot is in the new instance or in an old one
  have hslots : ∀ {h routine access locals},
      Slot.function routine access locals
        ∈ ((heap.instances.push ⟨d.name, fields ++ methods⟩).get h).slots →
      (routine.BodyIn S ∧ locals.returns.index < heap.returns.size) ∨
        Slot.function routine access locals ∈ (m.instanceAt h).slots := by
    intro h routine access locals hslot
    by_cases hh : h = heap.instances.next
    · subst hh
      rw [Pool.get_push_next] at hslot
      rcases List.mem_append.1 hslot with hslot | hslot
      · exact absurd hslot hfields.not_function
      · obtain ⟨f, hf, locals', heq, -, -, -, hhigh⟩ := hmethods _ hslot
        cases heq
        exact .inl ⟨hd.methods f hf, hhigh⟩
    · rw [Pool.get_push_of_ne hh, grown.instances] at hslot
      exact .inr hslot
  -- tables and files are those from before, so the instances are left
  refine ⟨⟨?_, ?_, ?_, ?_⟩, hm.scripts, Nat.lt_of_lt_of_le hm.returns grown.moreReturns, ?_⟩
  · show ∀ h s r, (heap.functions.get h).get? s = some r → _
    rw [grown.functions]
    exact hm.code.functions
  · show ∀ h s r, (heap.boxes.get h).get? s = some r → _
    rw [grown.boxes]
    exact hm.code.boxes
  · show ∀ h s r, (heap.extensions.get h).get? s = some r → _
    rw [grown.extensions]
    exact hm.code.extensions
  · intro h r hr
    obtain ⟨slot, hslot, heq⟩ := List.mem_filterMap.1 hr
    cases slot with
    | field => cases heq
    | function routine access locals =>
      cases heq
      rcases hslots hslot with ⟨hbody, -⟩ | hslot
      · exact hbody
      · exact hm.code.instances h _ (Instance.mem_routines hslot)
  · rintro h s r ⟨routine, access, level, hslot⟩
    rcases hslots hslot with ⟨-, hlt⟩ | hslot
    · exact hlt
    · exact Nat.lt_of_lt_of_le (hm.slots ⟨routine, access, level, hslot⟩) grown.moreReturns

/-- A method begins with a table of functions that has those of its instance. -/
theorem enterMethod (hm : m.Formed N S) {h : Handle} {signature : Signature} {routine : Routine}
    {access : Access} {locals : Locals} (active : Nat)
    (hfound : (m.instanceAt h).method? signature = some (routine, access, locals)) :
    (enterMethod h signature locals active m).Formed N S := by
  have houtline : ∀ k, ((m.heap.instances.modify h (·.setLevel signature active)).get k).outline
      = (m.instanceAt k).outline :=
    outline_modify fun i => i.outline_setLevel signature active
  have htable : Dict.AllIn ((m.instanceAt h).routines.foldl
      (fun d r => d.insert r.signature r) m.functions) (Routine.BodyIn S) :=
    Dict.EntriesIn.insertAll (P := fun _ => Routine.BodyIn S) (hm.code.instances h)
      (hm.code.functions _)
  refine ⟨⟨Pool.AllIn.push hm.code.functions htable, hm.code.boxes, hm.code.extensions, ?_⟩,
    hm.scripts, ?_, ?_⟩
  · intro k r hr
    exact hm.code.instances k r (Instance.routines_of_outline (houtline k).symm hr)
  · exact hm.slots (Instance.hasLocals_of_method? hfound)
  · intro k s r hl
    exact hm.slots (hl.of_outline (houtline k).symm)

theorem leaveMethod (hm : m.Formed N S) (hm' : m'.Formed N S)
    (hreturns : m.heap.returns.size ≤ m'.heap.returns.size) (h : Handle) (signature : Signature)
    (locals : Locals) (closed level : Nat) :
    (leaveMethod h signature locals m.context closed level m').Formed N S := by
  have houtline : ∀ k, ((BoxScript.leaveMethod h signature locals m.context closed level
      m').instanceAt k).outline = (m'.instanceAt k).outline := by
    intro k
    exact (outline_modify (fun i => i.outline_mapFields _) k).trans
      (outline_modify (fun i => i.outline_setLevel signature level) k)
  refine ⟨⟨hm'.code.functions, hm'.code.boxes, hm'.code.extensions, ?_⟩, hm'.scripts, ?_, ?_⟩
  · intro k r hr
    exact hm'.code.instances k r (Instance.routines_of_outline (houtline k).symm hr)
  · exact Nat.lt_of_lt_of_le hm.returns hreturns
  · intro k s r hl
    exact hm'.slots (hl.of_outline (houtline k).symm)

theorem forked (hm : m.Formed N S) : m.forked.Formed N S where
  code :=
    { functions := Pool.AllIn.push hm.code.functions (hm.code.functions _)
      boxes := Pool.AllIn.push hm.code.boxes (hm.code.boxes _)
      extensions := Pool.AllIn.push (P := fun e : Extension => e.routine.BodyIn S)
        hm.code.extensions (hm.code.extensions _)
      instances := hm.code.instances }
  scripts := hm.scripts
  returns := by
    show m.heap.returns.size < (m.heap.returns.push _).size
    rw [Pool.size_push]
    omega
  slots hl := by
    show _ < (m.heap.returns.push _).size
    rw [Pool.size_push]
    exact Nat.lt_succ_of_lt (hm.slots hl)

theorem size_mergeCell {α : Type} [Inhabited α] (combine : α → α → α) (into source : Handle)
    (p : Pool α) : (Context.mergeCell combine into source p).size = p.size := by
  unfold Context.mergeCell
  split
  · rfl
  · exact Pool.size_modify _ _ _

theorem merged (hm : m.Formed N S) (hm' : m'.Formed N S)
    (hreturns : m.heap.returns.size ≤ m'.heap.returns.size) : (m.merged m').Formed N S where
  code :=
    { functions := Pool.AllIn.mergeCell hm'.code.functions _ _
      boxes := Pool.AllIn.mergeCell hm'.code.boxes _ _
      extensions := Pool.AllIn.mergeCell (P := fun e : Extension => e.routine.BodyIn S)
        hm'.code.extensions _ _
      instances := hm'.code.instances }
  scripts := hm'.scripts
  returns := by
    show m.context.returns.index < (Context.mergeCell _ _ _ m'.heap.returns).size
    rw [size_mergeCell]
    exact Nat.lt_of_lt_of_le hm.returns hreturns
  slots hl := by
    show _ < (Context.mergeCell _ _ _ m'.heap.returns).size
    rw [size_mergeCell]
    exact hm'.slots hl

end Machine.Formed

theorem Machine.size_returns_forked (m : Machine) :
    m.heap.returns.size ≤ m.forked.heap.returns.size := by
  show _ ≤ (m.heap.returns.push _).size
  rw [Pool.size_push]
  omega

/-- No step brings code from outside the fragment. -/
theorem formContract_frames (F : Fragment N S) : (formContract N S).Frames N S where
  everywhere := ⟨fun _ _ => trivial, fun _ _ => trivial⟩
  fragment := F
  code hm := hm.code
  scripts hm := hm.scripts
  refl _ := Nat.le_refl _
  trans := Nat.le_trans
  console _ hm := ⟨hm.alike rfl rfl rfl, Nat.le_refl _⟩
  assign _ _ _ moves := ⟨moves.inv.alike rfl rfl rfl, Nat.le_refl _⟩
  bindParams _ _ hm := ⟨hm.alike rfl rfl rfl, Nat.le_refl _⟩
  declare _ hr hm := ⟨hm.modifyFunctions _ fun hd => hd.insert _ hr, Nat.le_refl _⟩
  register _ _ hd' hm := ⟨hm.modifyBoxes _ fun hd => hd.insert _ hd', Nat.le_refl _⟩
  -- what is linked is made of the functions of an instance, so its code has the form already
  linkIn h hm := (hm.counting _).modifyBoxes _ fun hd =>
    hd.insert _ (Instance.in_toBoxDef (hm.code.instances h) _)
  linkOut _ _ moves := ⟨moves.inv.modifyBoxes _ fun hd => hd.erase _, moves.rel⟩
  linkRefused hm := ⟨(hm.counting _).modifyBoxes _ fun hd => hd.erase _, Nat.le_refl _⟩
  extend name _ he hm := ⟨hm.modifyExtensions _ fun hd => hd.insert name he.routine, Nat.le_refl _⟩
  allocate := by
    intro _ m _ d fields _ _ hd hfields hm
    refine ⟨hm.allocate hd hfields, ?_⟩
    obtain ⟨methods, heap, grown, -, hmade⟩ := allocate_cases d fields m
    rw [hmade]
    exact grown.moreReturns
  setField h field v hm :=
    ⟨hm.untouched rfl rfl rfl (outline_modify fun i => i.outline_setField field v) (Nat.le_refl _)
      rfl rfl, Nat.le_refl _⟩
  push _ hm := ⟨hm.modifyReturns _, Nat.le_of_eq (Pool.size_modify _ _ _).symm⟩
  dropSignal hm := ⟨hm.modifyReturns _, Nat.le_of_eq (Pool.size_modify _ _ _).symm⟩
  scopeIn _ hm := hm.alike rfl rfl rfl
  scopeOut _ _ moves := ⟨moves.inv.alike rfl rfl rfl, moves.rel⟩
  clauseIn hm := hm.alike rfl rfl rfl
  clauseOut _ moves := ⟨moves.inv.alike rfl rfl rfl, moves.rel⟩
  callIn hm _ := hm.alike rfl rfl rfl
  callOut _ _ moves := ⟨moves.inv.alike rfl rfl rfl, moves.rel⟩
  methodIn hm hfound := hm.enterMethod _ hfound
  methodOut hm _ moves := ⟨hm.leaveMethod moves.inv moves.rel _ _ _ _ _, moves.rel⟩
  fork hm := hm.forked
  merge := by
    intro m sub hm moves
    have hreturns := Nat.le_trans m.size_returns_forked moves.rel
    refine ⟨hm.merged moves.inv hreturns, ?_⟩
    show _ ≤ (Context.mergeCell _ _ _ sub.heap.returns).size
    rw [Machine.Formed.size_mergeCell]
    exact hreturns
  discard := by
    intro m sub chained _ hm moves
    have hreturns := Nat.le_trans m.size_returns_forked moves.rel
    have hcode := moves.inv.code
    exact ⟨⟨⟨hcode.functions, hcode.boxes, hcode.extensions, hcode.instances⟩, moves.inv.scripts,
      Nat.lt_of_lt_of_le hm.returns hreturns, moves.inv.slots⟩, hreturns⟩

/-! ## New machines -/

theorem instanceAt_new (files : Files) (console : Console) (h : Handle) :
    (Machine.new files console).instanceAt h = default := Pool.get_of_le (Nat.zero_le _)

theorem not_hasLocals_new {files : Files} {console : Console} {h s r : Handle} :
    ¬((Machine.new files console).instanceAt h).HasLocals s r := by
  rintro ⟨routine, access, level, hslot⟩
  rw [instanceAt_new] at hslot
  cases hslot

/-- A new machine holds no code. -/
theorem codeIn_new (files : Files) (console : Console) :
    (Machine.new files console).CodeIn N (Routine.BodyIn S) := by
  refine ⟨Pool.entriesIn_new (P := fun _ => _), Pool.entriesIn_new (P := fun _ => _),
    Pool.entriesIn_new (P := fun _ (e : Extension) => e.routine.BodyIn S), fun h r hr => ?_⟩
  rw [show (Machine.new files console).heap.instances.get h = default from
    instanceAt_new files console h] at hr
  cases hr

/-- A new machine has no code but that in its files. -/
theorem formed_new (L : Language N S) (files : Files) (console : Console) :
    (Machine.new files console).Formed N S where
  code := codeIn_new files console
  scripts := L.scriptsIn _
  returns := Nat.zero_lt_one
  slots hl := absurd hl not_hasLocals_new

/-- The machine stays well formed with code from the grammar. -/
abbrev grammarContract : Contract := formContract IsExpr IsStatement

theorem grammar_frames : grammarContract.Frames IsExpr IsStatement :=
  formContract_frames grammar_language.toFragment

/-- **All code of a session was read by the parser.** -/
theorem Reachable.formed {m : Machine} (h : Reachable m) : m.Formed IsExpr IsStatement := by
  refine grammar_frames.inv_of_reachable grammar_language id (formed_new grammar_language)
    (fun m _ hm => ?_) h
  exact (hm.modifyReturns fun _ => []).alike rfl rfl rfl

/-! ## Between the steps of a statement -/

/-- The machines that come about in the course of a session: those that it gets to, and what these
become while a statement is under way, when parts of it have been evaluated, a method that it calls
has been run, or a further call of a row is to be made. -/
inductive Attained : Machine → Prop
  | reachable {m : Machine} (h : Reachable m) : Attained m
  | evaluated {m : Machine} (h : Attained m) (fuel : Nat) {node : Node}
      (hnode : IsStatement node) : Attained (eval fuel node m).machine
  | called {m : Machine} (h : Attained m) (fuel : Nat) (o : Handle) {routine : Routine}
      (hroutine : routine.BodyIn IsStatement) (args : List Value) :
      Attained (runMethod (eval fuel) o routine args m).machine
  | linked {m : Machine} (h : Attained m) (o : Handle) : Attained (m.linked o)

namespace Contract

variable {C : Contract} {N S : Node → Prop} {m : Machine}

/-- A call of a method keeps what its body keeps, if the body has the form. -/
theorem Frames.moves_runMethod (F : C.Frames N S) (hm : C.inv m) (fuel : Nat) (o : Handle)
    {routine : Routine} (hroutine : routine.BodyIn S) (args : List Value) :
    C.Moves m (runMethod (eval fuel) o routine args m).machine := by
  have hbody := kept_runBody F.toGround (fun n hn => F.kept_eval (P := fun _ _ => True)
    (fun _ _ _ _ => trivial) (fun _ => eval 0) fuel (hroutine n hn)) args
  exact (kept_asMethod F.toNested o routine.signature hbody m hm).moves

/-- What a contract keeps on the machines that a session can get to, it keeps in between. -/
theorem Frames.inv_of_attained (F : C.Frames N S) (hS : ∀ {n}, IsStatement n → S n)
    (hreachable : ∀ {m}, Reachable m → C.inv m) (h : Attained m) : C.inv m := by
  induction h with
  | reachable h => exact hreachable h
  | evaluated _ fuel hnode ih => exact (F.moves_eval ih fuel (hS hnode)).inv
  | called _ fuel o hroutine args ih =>
    exact (F.moves_runMethod ih fuel o (fun n hn => hS (hroutine n hn)) args).inv
  | linked _ o ih => exact F.linkIn o ih

end Contract

theorem Attained.formed {m : Machine} (h : Attained m) : m.Formed IsExpr IsStatement :=
  grammar_frames.inv_of_attained id Reachable.formed h

end BoxScript
