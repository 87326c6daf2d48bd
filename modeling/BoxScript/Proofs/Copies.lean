import BoxScript.Proofs.Activations
import BoxScript.Proofs.Creation

/-!
# Copies of instances

A further call in a row is not made on the result of the call before it but on a copy. An instance
is turned into a definition with its fields as they are and with its functions, the definition is
registered, and an instance is created from it. This cannot fail: no member of an instance is there
twice, so the definition is complete as it is, no function of it is abstract, and no field has an
expression to be evaluated. The definition lists the fields before the functions, but so does every
instance, so the slots of the copy are those of the instance in their order. Only fields without a
value are left out, and each function gets locals of its own that nothing has used.
-/

namespace BoxScript

/-! ## Definitions that are complete -/

/-- No item of a list without repetitions is found a second time. -/
theorem firstRepeated?_of_nodup {α : Type} [DecidableEq α] {seen l : List α} (h : l.Nodup)
    (hunseen : ∀ a ∈ l, a ∉ seen) : firstRepeated? seen l = none := by
  induction l generalizing seen with
  | nil => rfl
  | cons a l ih =>
    obtain ⟨hnew, hrest⟩ := List.nodup_cons.1 h
    unfold firstRepeated?
    rw [if_neg (hunseen a List.mem_cons_self)]
    refine ih hrest fun b hb hseen => ?_
    rcases List.mem_cons.1 hseen with rfl | hseen
    · exact hnew hb
    · exact hunseen b (List.mem_cons_of_mem _ hb) hseen

/-- A definition without a base is complete as it is, if no member is there twice or abstract. -/
theorem BoxDef.complete_of_regular {d : BoxDef} (hd : d.Regular)
    (hconcrete : ∀ f ∈ d.methods, f.isAbstract = false) : d.complete none = .ok d := by
  have hnone : d.methods.filter (·.isAbstract) = [] :=
    List.filter_eq_nil_iff.2 fun f hf => Bool.eq_false_iff.1 (hconcrete f hf)
  unfold complete
  rw [firstRepeated?_of_nodup hd.fields fun _ _ => List.not_mem_nil,
    firstRepeated?_of_nodup hd.methods fun _ _ => List.not_mem_nil]
  dsimp only
  rw [hnone]
  rfl

/-- A complete definition is registered under a name that is free. -/
theorem registerBox_of_free {d : BoxDef} {m : Machine} (hfree : m.boxes.get? d.name = none)
    (hbase : d.base = none) (hcomplete : d.complete none = .ok d) :
    registerBox d m = ⟨.ok (), m.updateBoxesAt m.context.boxes (·.insert d.name d)⟩ := by
  have hopen : ∀ old, m.boxes.get? d.name = some old → old.isConst = false := by
    intro old hold
    rw [hfree] at hold
    cases hold
  rw [registerBox_of_open hopen, hbase]
  show (Exec.ofExcept (d.complete none) >>= fun d =>
    Exec.update fun m => m.updateBoxesAt m.context.boxes (·.insert d.name d) : Exec Unit) m = _
  rw [hcomplete]
  rfl

/-! ## Fields first -/

/-- Whether a slot is a field without a value. -/
def Slot.isVacant : Slot → Bool
  | .field _ value _ => value.isVoid
  | .function .. => false

/-- A slot without its locals. -/
def Slot.content : Slot → Slot
  | .field name value access => .field name value access
  | .function routine access _ => .function routine access default

/-- The locals of a function slot. -/
def Slot.locals? : Slot → Option Locals
  | .field .. => none
  | .function _ _ locals => some locals

/-- The slots of an instance are fields and then functions. -/
theorem Instance.MadeFrom.split {i : Instance} {d : BoxDef} (h : i.MadeFrom d) :
    ∃ fields functions, i.slots = fields ++ functions ∧
      (∀ slot ∈ fields, ∃ name value access, slot = .field name value access) ∧
      ∀ slot ∈ functions, ∃ routine access locals, slot = .function routine access locals := by
  have hmembers : i.slots.map Slot.member = d.fields.map (fun f => .field f.name f.access)
      ++ d.methods.map fun f => .function f.routine f.access := h.members
  obtain ⟨fields, functions, hslots, hfields, hfunctions⟩ := List.map_eq_append_iff.1 hmembers
  refine ⟨fields, functions, hslots, fun slot hslot => ?_, fun slot hslot => ?_⟩
  · have hmember : slot.member ∈ fields.map Slot.member := List.mem_map_of_mem hslot
    rw [hfields] at hmember
    obtain ⟨f, -, hf⟩ := List.mem_map.1 hmember
    cases slot with
    | field name value access => exact ⟨name, value, access, rfl⟩
    | function => cases hf
  · have hmember : slot.member ∈ functions.map Slot.member := List.mem_map_of_mem hslot
    rw [hfunctions] at hmember
    obtain ⟨f, -, hf⟩ := List.mem_map.1 hmember
    cases slot with
    | field => cases hf
    | function routine access locals => exact ⟨routine, access, locals, rfl⟩

/-! ## New slots -/

/-- The slot of a field whose value is fixed. -/
def FieldSpec.slot? (f : FieldSpec) : Option Slot :=
  match f.init with
  | .expr _ => none
  | .fixed value => some (.field f.name value f.access)

/-- Fields whose values are fixed are made without evaluating anything. -/
theorem makeFieldsFrom_of_fixed (ev : Evaluator) {specs : List FieldSpec}
    (hfixed : ∀ f ∈ specs, f.slot?.isSome) (made : List Slot) (m : Machine) :
    makeFieldsFrom ev made specs m
      = ⟨.ok (made.reverse ++ specs.filterMap FieldSpec.slot?), m⟩ := by
  induction specs generalizing made with
  | nil => simp [makeFieldsFrom]
  | cons f specs ih =>
    obtain ⟨name, init, access⟩ := f
    cases init with
    | expr node => exact absurd (hfixed _ List.mem_cons_self) Bool.false_ne_true
    | fixed value =>
      refine (ih (fun f hf => hfixed f (List.mem_cons_of_mem _ hf)) _).trans ?_
      rw [List.reverse_cons, List.append_assoc]
      rfl

/-- The locals that the functions of a new instance get: the next store and the next stack of
signals each. -/
def Heap.newLocals (heap : Heap) (k : Nat) : Locals :=
  ⟨⟨heap.scopes.size + k⟩, ⟨heap.returns.size + k⟩, 0⟩

/-- The functions of a new instance are those of its definition. -/
theorem makeMethodsFrom_content (made : List Slot) (specs : List MethodSpec) (heap : Heap) :
    (makeMethodsFrom made specs heap).1.map Slot.content = made.reverse.map Slot.content
      ++ specs.map fun f => .function f.routine f.access default := by
  induction specs generalizing made heap with
  | nil => simp [makeMethodsFrom]
  | cons f specs ih =>
    refine (ih _ _).trans ?_
    simp [Slot.content]

theorem makeMethodsFrom_newLocals (made : List Slot) (specs : List MethodSpec) (heap : Heap) :
    (makeMethodsFrom made specs heap).1.filterMap Slot.locals?
      = made.reverse.filterMap Slot.locals? ++ (List.range specs.length).map heap.newLocals := by
  induction specs generalizing made heap with
  | nil => simp [makeMethodsFrom]
  | cons f specs ih =>
    refine (ih _ _).trans ?_
    have hlater : ∀ k, Heap.newLocals { heap with
        scopes := heap.scopes.push .empty, returns := heap.returns.push [] } k
          = heap.newLocals (k + 1) := by
      intro k
      unfold Heap.newLocals
      rw [Pool.size_push, Pool.size_push, Nat.add_assoc, Nat.add_assoc, Nat.add_comm 1 k]
    rw [List.length_cons, List.range_succ_eq_map, List.map_cons, List.map_map,
      List.map_congr_left fun k _ => hlater k]
    simp [Slot.locals?, Heap.newLocals, Pool.next, Pool.size]

theorem nodup_newLocals (heap : Heap) (n : Nat) :
    (((List.range n).map heap.newLocals).map (·.scopes)).Nodup ∧
      (((List.range n).map heap.newLocals).map (·.returns)).Nodup := by
  rw [List.map_map, List.map_map]
  constructor
  · refine List.Nodup.map (fun a b hab => ?_) List.nodup_range
    exact Nat.add_left_cancel (congrArg Handle.index hab)
  · refine List.Nodup.map (fun a b hab => ?_) List.nodup_range
    exact Nat.add_left_cancel (congrArg Handle.index hab)

/-! ## The definition that reproduces an instance -/

namespace Instance

variable (i : Instance) (name : String)

theorem fixed_toBoxDef : ∀ f ∈ (i.toBoxDef name).fields, f.slot?.isSome := by
  intro f hf
  obtain ⟨slot, -, hspec⟩ := List.mem_filterMap.1 hf
  cases slot with
  | field n value access =>
    dsimp only at hspec
    split at hspec
    · cases hspec
    · cases hspec
      rfl
  | function => cases hspec

theorem fields_toBoxDef : (i.toBoxDef name).fields.filterMap FieldSpec.slot?
    = i.slots.filter fun slot => slot.fieldName?.isSome && !slot.isVacant := by
  show (List.filterMap _ i.slots).filterMap FieldSpec.slot? = _
  generalize i.slots = slots
  induction slots with
  | nil => rfl
  | cons slot slots ih =>
    cases slot with
    | field n value access =>
      cases hvalue : value.isVoid with
      | true =>
        rw [List.filter_cons_of_neg (by simp [Slot.isVacant, hvalue]), ← ih]
        simp only [List.filterMap_cons, hvalue, if_true]
      | false =>
        rw [List.filter_cons_of_pos (by simp [Slot.isVacant, Slot.fieldName?, hvalue]), ← ih]
        simp only [List.filterMap_cons, hvalue, Bool.false_eq_true, if_false]
        rfl
    | function routine access locals => exact ih

theorem methods_toBoxDef : (i.toBoxDef name).methods.map
    (fun f => Slot.function f.routine f.access default)
      = (i.slots.filter (·.signature?.isSome)).map Slot.content := by
  show List.map _ (List.filterMap _ i.slots) = _
  generalize i.slots = slots
  induction slots with
  | nil => rfl
  | cons slot slots ih =>
    cases slot with
    | field => exact ih
    | function routine access locals => exact congrArg (List.cons _) ih

/-- Fields and functions of the definition are the slots in their order, less the fields without a
value. -/
theorem MadeFrom.content_toBoxDef {i : Instance} {d : BoxDef} (h : i.MadeFrom d) (name : String) :
    ((i.toBoxDef name).fields.filterMap FieldSpec.slot?).map Slot.content
        ++ (i.toBoxDef name).methods.map (fun f => Slot.function f.routine f.access default)
      = (i.slots.filter (!·.isVacant)).map Slot.content := by
  obtain ⟨fields, functions, hslots, hfields, hfunctions⟩ := h.split
  -- the fields stand in front of the functions, so that each filter leaves one part alone
  have hkept : fields.filter (fun slot => slot.fieldName?.isSome && !slot.isVacant)
      = fields.filter (!·.isVacant) := by
    refine List.filter_congr fun slot hslot => ?_
    obtain ⟨n, value, access, rfl⟩ := hfields slot hslot
    rfl
  have hnoField :
      functions.filter (fun slot => slot.fieldName?.isSome && !slot.isVacant) = [] := by
    refine List.filter_eq_nil_iff.2 fun slot hslot => ?_
    obtain ⟨routine, access, locals, rfl⟩ := hfunctions slot hslot
    exact Bool.false_ne_true
  have hnoFunction : fields.filter (·.signature?.isSome) = [] := by
    refine List.filter_eq_nil_iff.2 fun slot hslot => ?_
    obtain ⟨n, value, access, rfl⟩ := hfields slot hslot
    exact Bool.false_ne_true
  have hall : functions.filter (·.signature?.isSome) = functions := by
    refine List.filter_eq_self.2 fun slot hslot => ?_
    obtain ⟨routine, access, locals, rfl⟩ := hfunctions slot hslot
    rfl
  have hfull : functions.filter (!·.isVacant) = functions := by
    refine List.filter_eq_self.2 fun slot hslot => ?_
    obtain ⟨routine, access, locals, rfl⟩ := hfunctions slot hslot
    rfl
  rw [fields_toBoxDef, methods_toBoxDef, hslots, List.filter_append, List.filter_append,
    List.filter_append, hkept, hnoField, hnoFunction, hall, hfull, List.append_nil,
    List.nil_append, List.map_append]

end Instance

/-! ## Between the steps of a row -/

/-- What every idle machine has and every step keeps is there in the middle of a run. -/
theorem Contract.Abides.attained {C : Contract} (A : C.Abides)
    (hidle : ∀ {m}, Idle m → C.inv m) {m : Machine} (h : Attained m) : C.inv m := by
  induction h with
  | @reachable m h =>
    cases h with
    | idle h => exact hidle h
    | @within _ _ _ _ program _ h _ hgets =>
      exact (A.getsTo (hidle h) (fun hev => A.leads_runProgram hev program) hgets).1.inv
  | @evaluated _ _ fuel node _ ih => exact (A.eval fuel node ih).inv
  | @called m _ fuel o routine _ args ih =>
    have hev : ∀ n, C.Leads m (BoxScript.eval fuel n) _ := A.leads_eval fuel
    exact (A.asMethod (A.leads_runBody hev routine args) o routine.signature m ih).inv
  | linked _ o ih => exact (A.step (.link _ o) ih).inv

theorem Attained.crafted {m : Machine} (h : Attained m) : m.Crafted :=
  craft_abides.attained Idle.crafted h

/-! ## A session with one instance that has slots of every kind -/

namespace EveryKind

/-- A box with a field without a value, a guarded field, a guarded function and an exposed one. -/
def source : String :=
  "function v() return void refbox A x=v() guarded y=1 "
    ++ "guarded function g() return y function f(o) return o end a=create A"

def program : Program :=
  [.function ⟨"v", [], [.giveBack none]⟩,
    .box ⟨"A", none, false, false,
      [⟨"x", .call "v" [], .exposed⟩, ⟨"y", .int 1, .guarded⟩],
      [⟨⟨"g", [], [.giveBack (some (.var "y"))]⟩, .guarded, false⟩,
        ⟨⟨"f", ["o"], [.giveBack (some (.var "o"))]⟩, .exposed, false⟩]⟩,
    .assign "a" (.create "A")]

/-- The tokens of the text. -/
def tokens : Tokens :=
  [(.keyword .function, ⟨0, 8⟩), (.ident "v", ⟨9, 10⟩), (.sign .lParen, ⟨10, 11⟩),
    (.sign .rParen, ⟨11, 12⟩), (.keyword .giveBack, ⟨13, 19⟩), (.keyword .void, ⟨20, 24⟩),
    (.keyword .refbox, ⟨25, 31⟩), (.ident "A", ⟨32, 33⟩), (.ident "x", ⟨34, 35⟩),
    (.sign .eq, ⟨35, 36⟩), (.ident "v", ⟨36, 37⟩), (.sign .lParen, ⟨37, 38⟩),
    (.sign .rParen, ⟨38, 39⟩), (.keyword .guarded, ⟨40, 47⟩), (.ident "y", ⟨48, 49⟩),
    (.sign .eq, ⟨49, 50⟩), (.int 1, ⟨50, 51⟩), (.keyword .guarded, ⟨52, 59⟩),
    (.keyword .function, ⟨60, 68⟩), (.ident "g", ⟨69, 70⟩), (.sign .lParen, ⟨70, 71⟩),
    (.sign .rParen, ⟨71, 72⟩), (.keyword .giveBack, ⟨73, 79⟩), (.ident "y", ⟨80, 81⟩),
    (.keyword .function, ⟨82, 90⟩), (.ident "f", ⟨91, 92⟩), (.sign .lParen, ⟨92, 93⟩),
    (.ident "o", ⟨93, 94⟩), (.sign .rParen, ⟨94, 95⟩), (.keyword .giveBack, ⟨96, 102⟩),
    (.ident "o", ⟨103, 104⟩), (.keyword .endBlock, ⟨105, 108⟩), (.ident "a", ⟨109, 110⟩),
    (.sign .eq, ⟨110, 111⟩), (.keyword .create, ⟨111, 117⟩), (.ident "A", ⟨118, 119⟩)]

/-- The machine after the program: one instance, which `a` holds. -/
def machine : Machine := (runProgram (eval 5) program (.new .empty (.ofBytes []))).machine

theorem parsed : Program.ofSource source = .ok program := by
  have hscan : Token.scan source = .ok tokens := by decide +kernel
  rw [ofSource_of_scan hscan]
  cbv

theorem attained : Attained machine := by
  have hrun : (Machine.new .empty (.ofBytes [])).runWith 5 source = (.finished, machine) := by
    unfold Machine.runWith
    rw [parsed]
    rfl
  exact .reachable (.idle (.run (.new .empty (.ofBytes [])) hrun nofun))

end EveryKind

/-! ## Copies -/

/-- What the instance `copy` on the machine `m'` has of the instance `o` on the machine `m`, if it
was made through a definition under a name. -/
structure Reproduced (m : Machine) (o : Handle) (name : String) (copy : Handle) (m' : Machine) :
    Prop where
  isNew : ¬m.Has copy ∧ m'.Has copy
  box : (m'.instanceAt copy).box = name
  /-- The slots are those of `o` in their order, with names, values, functions and access, but
  fields without a value are left out. -/
  slots : (m'.instanceAt copy).slots.map Slot.content
    = ((m.instanceAt o).slots.filter (!·.isVacant)).map Slot.content
  /-- The locals of each function are new cells, and hold neither variables nor signals. -/
  fresh : ∀ l ∈ (m'.instanceAt copy).slots.filterMap Slot.locals?, l.level = 0 ∧
    m.heap.scopes.size ≤ l.scopes.index ∧ l.scopes.index < m'.heap.scopes.size ∧
    m.heap.returns.size ≤ l.returns.index ∧ l.returns.index < m'.heap.returns.size ∧
    m'.heap.scopes.get l.scopes = .empty ∧ m'.heap.returns.get l.returns = []
  /-- No two functions share any of them. -/
  apart : (((m'.instanceAt copy).slots.filterMap Slot.locals?).map (·.scopes)).Nodup ∧
    (((m'.instanceAt copy).slots.filterMap Slot.locals?).map (·.returns)).Nodup
  /-- All instances that were there are unchanged, `o` among them, and so are all stores of
  variables and all pending signals. -/
  kept : ∀ {k}, m.Has k → m'.Has k ∧ m'.instanceAt k = m.instanceAt k
  stores : ∀ h, m'.heap.scopes.get h = m.heap.scopes.get h
  signals : ∀ h, m'.heap.returns.get h = m.heap.returns.get h

theorem allocate_eq (d : BoxDef) (fields : List Slot) (m : Machine) : allocate d fields m
    = ⟨.ok m.heap.instances.next, (allocate d fields m).machine⟩ := by
  rw [← instances_makeMethodsFrom [] d.methods m.heap]
  rfl

/-- The machine with a definition that reproduces an instance. -/
def Machine.withCopied (m : Machine) (o : Handle) (name : String) : Machine :=
  m.updateBoxesAt m.context.boxes (·.insert name ((m.instanceAt o).toBoxDef name))

/-- An instance that is created from the definition that reproduces another one. -/
theorem reproduced_allocate {m : Machine} {o : Handle} {d : BoxDef}
    (hmade : (m.instanceAt o).MadeFrom d) (name : String) :
    Reproduced m o name m.heap.instances.next (allocate ((m.instanceAt o).toBoxDef name)
      (((m.instanceAt o).toBoxDef name).fields.filterMap FieldSpec.slot?)
      (m.withCopied o name)).machine := by
  let m₁ := m.withCopied o name
  let copied := (m.instanceAt o).toBoxDef name
  let fields := copied.fields.filterMap FieldSpec.slot?
  let functions := (makeMethodsFrom [] copied.methods m₁.heap).1
  obtain ⟨grown, hnew⟩ := makeMethodsFrom_grown [] copied.methods m₁.heap
  have hat : (allocate copied fields m₁).machine.instanceAt m.heap.instances.next
      = ⟨name, fields ++ functions⟩ :=
    (instanceAt_allocate copied fields m₁ _).trans (if_pos rfl)
  have hsize : (allocate copied fields m₁).machine.heap.instances.size
      = m.heap.instances.size + 1 := size_allocate copied fields m₁
  have hnoLocals : ∀ slot ∈ fields, slot.locals? = none := by
    intro slot hslot
    obtain ⟨⟨n, init, access⟩, -, hspec⟩ := List.mem_filterMap.1 hslot
    cases init with
    | expr => cases hspec
    | fixed value =>
      cases hspec
      rfl
  have hlocals : (fields ++ functions).filterMap Slot.locals?
      = (List.range copied.methods.length).map m₁.heap.newLocals := by
    rw [List.filterMap_append, List.filterMap_eq_nil_iff.2 hnoLocals, List.nil_append]
    exact makeMethodsFrom_newLocals [] copied.methods m₁.heap
  constructor
  case isNew =>
    refine ⟨Nat.lt_irrefl _, ?_⟩
    unfold Machine.Has
    rw [hsize]
    exact Nat.lt_succ_self _
  case box => rw [hat]
  case slots =>
    rw [hat, ← hmade.content_toBoxDef name, List.map_append]
    exact congrArg (_ ++ ·) (makeMethodsFrom_content [] copied.methods m₁.heap)
  case fresh =>
    intro l hl
    rw [hat] at hl
    have hlevel : l.level = 0 := by
      rw [hlocals] at hl
      obtain ⟨k, -, rfl⟩ := List.mem_map.1 hl
      rfl
    obtain ⟨slot, hslot, hsome⟩ := List.mem_filterMap.1 hl
    rcases List.mem_append.1 hslot with hslot | hslot
    · rw [hnoLocals slot hslot] at hsome
      cases hsome
    · obtain ⟨f, -, l', rfl, hlow, hhigh, hlow', hhigh'⟩ :=
        (hnew slot hslot).resolve_left List.not_mem_nil
      cases hsome
      -- a cell that the old heap does not have reads the default
      have hempty : m₁.heap.scopes.get l.scopes = default := Pool.get_of_le hlow
      have hquiet : m₁.heap.returns.get l.returns = default := Pool.get_of_le hlow'
      exact ⟨hlevel, hlow, hhigh, hlow', hhigh', (grown.scopes _).trans hempty,
        (grown.returns _).trans hquiet⟩
  case apart =>
    rw [hat, hlocals]
    exact nodup_newLocals _ _
  case kept =>
    intro k hk
    have hne : k ≠ m₁.heap.instances.next := by
      rintro rfl
      exact Nat.lt_irrefl _ hk
    refine ⟨?_, (instanceAt_allocate copied fields m₁ k).trans (if_neg hne)⟩
    unfold Machine.Has at hk ⊢
    rw [hsize]
    exact Nat.lt_succ_of_lt hk
  case stores => exact grown.scopes
  case signals => exact grown.returns

/-- **A copy of an instance can always be made**, and it reproduces the instance. The definition
that it is made through may get any name that is not registered. -/
theorem instance_reproduced {m : Machine} (h : Attained m) {o : Handle} (ho : m.Has o)
    {name : String} (hfree : m.boxes.get? name = none) (ev : Evaluator) :
    ∃ m', (registerBox ((m.instanceAt o).toBoxDef name) >>= fun _ => instantiate ev name) m
        = ⟨.ok m.heap.instances.next, m'⟩ ∧
      Reproduced m o name m.heap.instances.next m' := by
  obtain ⟨d, -, hmade⟩ := h.crafted.made ho
  let copied := (m.instanceAt o).toBoxDef name
  have hcomplete : copied.complete none = .ok copied :=
    BoxDef.complete_of_regular ((h.crafted.instances o).toBoxDef name)
      ((BoxDef.recorded_toBoxDef _ name).concrete rfl)
  have hregisters : registerBox copied m = ⟨.ok (), m.withCopied o name⟩ :=
    registerBox_of_free hfree rfl hcomplete
  have hknown : (m.withCopied o name).boxes.get? name = some copied := by
    have htable : (m.withCopied o name).boxes = m.boxes.insert name copied :=
      Pool.get_modify_self h.orderly.shaped.boxes _
    rw [htable, Dict.get?_insert_self]
  -- every field has its value already, so that no initializer runs
  have hfields := makeFieldsFrom_of_fixed ev ((m.instanceAt o).fixed_toBoxDef name) []
    (m.withCopied o name)
  refine ⟨_, ?_, reproduced_allocate hmade name⟩
  rw [Exec.bind_ok hregisters]
  unfold instantiate
  rw [Exec.bind_ok (boxNamed_of_some hknown)]
  show (makeFieldsFrom ev [] copied.fields >>= fun fields => allocate copied fields) _ = _
  rw [Exec.bind_ok hfields]
  exact allocate_eq copied _ _

/-- The copy has no field `x`, which has no value to be copied. -/
theorem instance_reproduced_vacant :
    EveryKind.machine.Has ⟨0⟩ ∧ EveryKind.machine.boxes.get? "B" = none ∧
    ∃ m', (registerBox ((EveryKind.machine.instanceAt ⟨0⟩).toBoxDef "B") >>= fun _ =>
        instantiate (eval 0) "B") EveryKind.machine = ⟨.ok ⟨1⟩, m'⟩ ∧
      (m'.instanceAt ⟨1⟩).slots.map Slot.content =
        [.field "y" (.int 1) .guarded,
          .function ⟨"g", [], [.giveBack (some (.var "y"))]⟩ .guarded default,
          .function ⟨"f", ["o"], [.giveBack (some (.var "o"))]⟩ .exposed default] := by
  have hhas : EveryKind.machine.Has ⟨0⟩ := Nat.zero_lt_one
  have hfree : EveryKind.machine.boxes.get? "B" = none := rfl
  obtain ⟨m', hmade, hcopy⟩ := instance_reproduced EveryKind.attained hhas hfree (eval 0)
  exact ⟨hhas, hfree, m', hmade, hcopy.slots⟩

end BoxScript
