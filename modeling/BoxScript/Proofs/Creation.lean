import BoxScript.Proofs.Lineage
import BoxScript.Proofs.Passing

/-!
# Instances as they were created

An instance is made from a definition that is not abstract, and its slots are the members of the
definition in their order, fields before functions. Later on only values and levels in them change.
So the sequence of its members (`Instance.members`) is the same on all machines of a session that
have the instance, also on those in the course of a run, and whatever is done to definitions in the
meantime.
-/

namespace BoxScript

/-! ## Members -/

/-- What there is to a slot besides values, levels and locals. -/
inductive Member where
  | field (name : String) (access : Access)
  | function (routine : Routine) (access : Access)

/-- The member that a slot holds. -/
def Slot.member : Slot → Member
  | .field name _ access => .field name access
  | .function routine access _ => .function routine access

/-- The members of an instance, in the order of its slots. -/
def Instance.members (i : Instance) : List Member := i.slots.map Slot.member

/-- The members of a definition, fields first. -/
def BoxDef.members (d : BoxDef) : List Member :=
  d.fields.map (fun f => .field f.name f.access)
    ++ d.methods.map fun f => .function f.routine f.access

/-- The name of a member that is a field. -/
def Member.fieldName? : Member → Option String
  | field name _ => some name
  | function .. => none

/-- The signature of a member that is a function. -/
def Member.signature? : Member → Option Signature
  | field .. => none
  | function routine _ => some routine.signature

/-- The instance has the name of the definition, and its members in their order. -/
structure Instance.MadeFrom (i : Instance) (d : BoxDef) : Prop where
  box : i.box = d.name
  members : i.members = d.members

/-- Two states of an instance in which only values and levels differ. -/
structure Instance.Same (i j : Instance) : Prop where
  box : j.box = i.box
  outline : j.outline = i.outline

namespace Instance

variable {i j k : Instance} {d : BoxDef}

theorem Same.refl (i : Instance) : i.Same i := ⟨rfl, rfl⟩

theorem Same.symm (h : i.Same j) : j.Same i := ⟨h.box.symm, h.outline.symm⟩

theorem Same.trans (h : i.Same j) (h' : j.Same k) : i.Same k :=
  ⟨h'.box.trans h.box, h'.outline.trans h.outline⟩

/-- The members show in the outline. -/
theorem members_eq (i : Instance) : i.members = i.outline.map Slot.member := by
  unfold members outline
  rw [List.map_map]
  exact List.map_congr_left fun slot _ => by cases slot <;> rfl

theorem Same.members (h : i.Same j) : j.members = i.members := by
  rw [members_eq, members_eq, h.outline]

/-- An instance stays made from its definition while its members do. -/
theorem MadeFrom.same (h : i.MadeFrom d) (hsame : i.Same j) : j.MadeFrom d :=
  ⟨hsame.box.trans h.box, hsame.members.trans h.members⟩

theorem fieldNames_members (i : Instance) :
    i.slots.filterMap Slot.fieldName? = i.members.filterMap Member.fieldName? := by
  unfold members
  rw [List.filterMap_map]
  exact List.filterMap_congr fun slot _ => by cases slot <;> rfl

theorem signatures_members (i : Instance) :
    i.slots.filterMap Slot.signature? = i.members.filterMap Member.signature? := by
  unfold members
  rw [List.filterMap_map]
  exact List.filterMap_congr fun slot _ => by cases slot <;> rfl

end Instance

theorem BoxDef.fieldNames_members (d : BoxDef) :
    d.members.filterMap Member.fieldName? = d.fields.map (·.name) := by
  unfold members
  rw [List.filterMap_append, List.filterMap_map, List.filterMap_map]
  have hnames : d.fields.filterMap (fun f => some f.name) = d.fields.map (·.name) :=
    congrFun List.filterMap_eq_map' d.fields
  have hnone : d.methods.filterMap (fun _ => none) = ([] : List String) :=
    List.filterMap_eq_nil_iff.2 fun _ _ => rfl
  exact (congrArg₂ (· ++ ·) hnames hnone).trans (List.append_nil _)

theorem BoxDef.signatures_members (d : BoxDef) :
    d.members.filterMap Member.signature? = d.methods.map (·.signature) := by
  unfold members
  rw [List.filterMap_append, List.filterMap_map, List.filterMap_map]
  have hsignatures : d.methods.filterMap (fun f => some f.signature)
      = d.methods.map (·.signature) := congrFun List.filterMap_eq_map' d.methods
  have hnone : d.fields.filterMap (fun _ => none) = ([] : List Signature) :=
    List.filterMap_eq_nil_iff.2 fun _ _ => rfl
  exact congrArg₂ (· ++ ·) hnone hsignatures

namespace Instance

variable {i : Instance} {d : BoxDef}

/-- An instance has the fields of its definition, in the same order. -/
theorem MadeFrom.fieldNames (h : i.MadeFrom d) :
    i.slots.filterMap Slot.fieldName? = d.fields.map (·.name) := by
  rw [fieldNames_members, h.members, d.fieldNames_members]

theorem MadeFrom.signatures (h : i.MadeFrom d) :
    i.slots.filterMap Slot.signature? = d.methods.map (·.signature) := by
  rw [signatures_members, h.members, d.signatures_members]

/-- A list has the same members as itself. -/
theorem sameMembers_self {α : Type} [DecidableEq α] (as : List α) : sameMembers as as = true := by
  simp [sameMembers]

/-- **An instance fits the definition that it was made from.** -/
theorem MadeFrom.fits (h : i.MadeFrom d) : i.fits d = true := by
  have hall : i.slots.filter (·.visible true) = i.slots := List.filter_eq_self.2 fun _ _ => rfl
  unfold Instance.fits Instance.fieldNames Instance.signatures
  rw [hall, h.fieldNames, h.signatures, sameMembers_self, sameMembers_self]
  rfl

end Instance

/-! ## New instances -/

/-- Slots of fields have the names and the access that their definition gives them. -/
theorem FieldSlots.map_member {slots : List Slot} {specs : List FieldSpec}
    (h : FieldSlots slots specs) :
    slots.map Slot.member = specs.map fun f => .field f.name f.access := by
  induction h with
  | nil => rfl
  | cons hslot _ ih =>
    obtain ⟨v, rfl⟩ := hslot
    exact congrArg (List.cons _) ih

theorem makeMethodsFrom_map_member (made : List Slot) (specs : List MethodSpec) (heap : Heap) :
    (makeMethodsFrom made specs heap).1.map Slot.member
      = made.reverse.map Slot.member ++ specs.map fun f => .function f.routine f.access := by
  induction specs generalizing made heap with
  | nil => simp [makeMethodsFrom]
  | cons f specs ih =>
    refine (ih _ _).trans ?_
    simp [Slot.member]

/-- A new instance is made from its definition. -/
theorem madeFrom_allocate {d : BoxDef} {fields : List Slot} (hfields : FieldSlots fields d.fields)
    (m : Machine) :
    ((allocate d fields m).machine.instanceAt m.heap.instances.next).MadeFrom d := by
  rw [instanceAt_allocate, if_pos rfl]
  refine ⟨rfl, ?_⟩
  unfold Instance.members BoxDef.members
  rw [List.map_append, hfields.map_member, makeMethodsFrom_map_member]
  rfl

theorem size_allocate (d : BoxDef) (fields : List Slot) (m : Machine) :
    (allocate d fields m).machine.heap.instances.size = m.heap.instances.size + 1 := by
  obtain ⟨_, heap, grown, -, hmade⟩ := allocate_cases d fields m
  rw [hmade]
  show (heap.instances.push _).size = _
  rw [Pool.size_push, grown.instances]

/-- The definition is one that instances are made from: without abstract functions, and with no
member twice. -/
structure BoxDef.Usable (d : BoxDef) : Prop where
  regular : d.Regular
  notAbstract : d.isAbstract = false
  concrete : ∀ f ∈ d.methods, f.isAbstract = false

/-! ## What no step takes back -/

/-- The machine has the instance. -/
def Machine.Has (m : Machine) (h : Handle) : Prop := h.index < m.heap.instances.size

/-- All definitions and instances are as they are when they are made. -/
structure Machine.Crafted (m : Machine) : Prop where
  recorded : m.Recorded
  definitions : m.heap.boxes.AllIn BoxDef.Regular
  instances : ∀ h, (m.instanceAt h).Regular
  made : ∀ {h}, m.Has h → ∃ d : BoxDef, d.Usable ∧ (m.instanceAt h).MadeFrom d

/-- Instances stay, and are what they were. -/
structure Machine.Retains (m m' : Machine) : Prop where
  has : ∀ {h}, m.Has h → m'.Has h
  same : ∀ {h}, m.Has h → (m.instanceAt h).Same (m'.instanceAt h)

/-- Nothing is made in another way, and nothing that is made is changed. -/
def craftContract : Contract where
  lax := False
  inv := Machine.Crafted
  rel := Machine.Retains

namespace Machine.Crafted

variable {m m' : Machine}

/-- A step that changes definitions only. -/
theorem redefined (hm : m.Crafted) (hinstances : m'.heap.instances = m.heap.instances)
    (hrecorded : m'.Recorded) (hdefinitions : m'.heap.boxes.AllIn BoxDef.Regular) :
    craftContract.Allows m m' := by
  have hat : m'.instanceAt = m.instanceAt := by
    unfold instanceAt
    rw [hinstances]
  have hhas : ∀ h, m'.Has h = m.Has h := fun h => by
    unfold Has
    rw [hinstances]
  refine ⟨⟨hrecorded, hdefinitions, fun h => ?_, fun {h} hh => ?_⟩, fun {h} hh => ?_,
    fun {h} _ => ?_⟩
  · rw [hat]
    exact hm.instances h
  · rw [hat]
    exact hm.made (hhas h ▸ hh)
  · rw [hhas]
    exact hh
  · rw [hat]
    exact .refl _

/-- A step that changes one instance, but neither its name nor its outline. -/
theorem modified (hm : m.Crafted) (h : Handle) {f : Instance → Instance}
    (hbox : ∀ i, (f i).box = i.box) (houtline : ∀ i, (f i).outline = i.outline) :
    craftContract.Allows m (m.updateInstance h f) := by
  have hhas : ∀ k, (m.updateInstance h f).Has k = m.Has k := fun k => by
    show (k.index < (m.heap.instances.modify h f).size) = _
    rw [Pool.size_modify]
    rfl
  have hsame : ∀ k, (m.instanceAt k).Same ((m.updateInstance h f).instanceAt k) := by
    refine fun k => ⟨?_, outline_modify houtline k⟩
    show ((m.heap.instances.modify h f).get k).box = (m.heap.instances.get k).box
    rcases Pool.get_modify_cases m.heap.instances h f k with ⟨-, -, hget⟩ | hget <;> rw [hget]
    exact hbox _
  refine ⟨⟨hm.recorded, hm.definitions, fun k => ?_, fun {k} hk => ?_⟩, fun {k} hk => ?_,
    fun {k} _ => hsame k⟩
  · exact (hm.instances k).of_outline (hsame k).outline
  · obtain ⟨d, hd, hmade⟩ := hm.made (hhas k ▸ hk)
    exact ⟨d, hd, hmade.same (hsame k)⟩
  · rw [hhas]
    exact hk

/-- An instance that is made from a definition has its members, and all others stay as they are. -/
theorem created (hm : m.Crafted) {d : BoxDef} {fields : List Slot} (hd : d.Usable)
    (hfields : FieldSlots fields d.fields) :
    craftContract.Allows m (allocate d fields m).machine := by
  have hboxes : (allocate d fields m).machine.heap.boxes = m.heap.boxes := by
    obtain ⟨_, _, grown, -, hmade⟩ := allocate_cases d fields m
    rw [hmade]
    exact grown.boxes
  have hsize := size_allocate d fields m
  have hnext : ∀ {h}, m.Has h → h ≠ m.heap.instances.next := by
    rintro h hh rfl
    exact Nat.lt_irrefl _ hh
  have hold : ∀ {h}, m.Has h → (allocate d fields m).machine.instanceAt h = m.instanceAt h := by
    intro h hh
    rw [instanceAt_allocate, if_neg (hnext hh)]
  refine ⟨⟨?_, ?_, fun h => ?_, fun {h} hh => ?_⟩, fun {h} hh => ?_, fun {h} hh => ?_⟩
  · unfold Recorded
    rw [hboxes]
    exact hm.recorded
  · rw [hboxes]
    exact hm.definitions
  · rw [instanceAt_allocate]
    split
    · exact regular_allocate hd.regular hfields m.heap d.name
    · exact hm.instances h
  · by_cases hnew : h = m.heap.instances.next
    · subst hnew
      exact ⟨d, hd, madeFrom_allocate hfields m⟩
    · have hh' : m.Has h := by
        have hne : h.index ≠ m.heap.instances.size := fun he => hnew (by cases h; cases he; rfl)
        unfold Has at hh ⊢
        omega
      rw [hold hh']
      exact hm.made hh'
  · unfold Has at hh ⊢
    omega
  · rw [hold hh]
    exact .refl _

/-- A registered definition that is not abstract is one that instances are made from. -/
theorem usable (hm : m.Crafted) {name : String} {d : BoxDef} (hknown : m.boxes.get? name = some d)
    (hconcrete : d.isAbstract = false) : d.Usable where
  regular := hm.definitions _ _ _ hknown
  notAbstract := hconcrete
  concrete := (hm.recorded _ _ _ hknown).concrete hconcrete

end Machine.Crafted

/-- No step changes the members of an instance, and none is made without a definition. -/
theorem craft_abides : craftContract.Abides where
  refl _ := ⟨id, fun _ => .refl _⟩
  trans h h' := ⟨fun hh => h'.has (h.has hh), fun hh => (h.same hh).trans (h'.same (h.has hh))⟩
  step := by
    intro m m' hstep hm
    change m.Crafted at hm
    -- a step changes a table of definitions, or the insides of one instance, or neither
    cases hstep with
    | other hboxes hinstances =>
      refine hm.redefined hinstances ?_ (hboxes ▸ hm.definitions)
      unfold Machine.Recorded
      rw [hboxes]
      exact hm.recorded
    | register accepted =>
      exact hm.redefined rfl (hm.recorded.insert (hm.recorded.accepts accepted) rfl)
        (hm.definitions.modify _ fun hall =>
          hall.insert _ accepted.regular)
    | link _ h =>
      exact hm.redefined rfl (hm.recorded.insert (BoxDef.recorded_toBoxDef _ _) rfl)
        (hm.definitions.modify _ fun hall => hall.insert _ ((hm.instances h).toBoxDef _))
    | drop _ table name =>
      exact hm.redefined rfl (hm.recorded.drop table name)
        (hm.definitions.modify _ fun hall => hall.erase _)
    | fork => exact hm.redefined rfl hm.recorded.forked (hm.definitions.push (hm.definitions _))
    | merge outer =>
      exact hm.redefined rfl (hm.recorded.merged outer) (hm.definitions.mergeCell _ _)
    | setField _ h field v =>
      exact hm.modified h (fun _ => rfl) fun i => i.outline_setField field v
    | setLevel _ h signature level =>
      exact hm.modified h (fun _ => rfl) fun i => i.outline_setLevel signature level
    | mapFields _ h f => exact hm.modified h (fun _ => rfl) fun i => i.outline_mapFields f
  create := by
    intro m m' name d fields hm hknown hconcrete hfields between
    exact between.inv.created (hm.usable hknown hconcrete) hfields

/-! ## Sessions -/

/-- Before anything has run there are no instances. -/
theorem crafted_new (files : Files) (console : Console) : (Machine.new files console).Crafted where
  recorded := (Reachable.idle (.new files console)).recorded
  definitions := (shaped_new files console).definitions
  instances := (shaped_new files console).instances
  made hh := absurd hh (Nat.not_lt_zero _)

theorem Idle.crafted {m : Machine} (h : Idle m) : m.Crafted := by
  induction h with
  | new files console => exact crafted_new files console
  | run _ hrun _ ih => exact (craft_abides.runWith hrun ih).inv
  | recover _ ih => exact (craft_abides.recover ih).inv

/-- The machines that a session has been on by the time it is on the last one: those between its
runs, and those on which the evaluation of a node began or ended in the course of a run. -/
inductive Visited : Machine → Machine → Prop
  | now {m : Machine} (h : Idle m) : Visited m m
  | within {m m' there : Machine} {fuel : Nat} {source : String} {ending : Ending}
    {program : Program} {node : Node} (h : Idle m) (hparse : Program.ofSource source = .ok program)
    (hgets : GetsTo fuel (runProgram · program) m node there)
    (hrun : m.runWith fuel source = (ending, m')) : Visited there m'
  | behind {m m' place there : Machine} {fuel left : Nat} {source : String} {ending : Ending}
    {program : Program} {node : Node} (h : Idle m) (hparse : Program.ofSource source = .ok program)
    (hevaluates : Evaluates fuel (runProgram · program) m node place left)
    (hthere : (eval left node place).machine = there)
    (hrun : m.runWith fuel source = (ending, m')) : Visited there m'
  | run {there m m' : Machine} {fuel : Nat} {source : String} {ending : Ending}
    (before : Visited there m) (h : Idle m) (hrun : m.runWith fuel source = (ending, m')) :
    Visited there m'
  | recover {there m : Machine} (before : Visited there m) (h : Idle m) : Visited there m.recover

theorem Machine.runWith_of_parse {m m' : Machine} {fuel : Nat} {source : String} {ending : Ending}
    {program : Program} (hparse : Program.ofSource source = .ok program)
    (hrun : m.runWith fuel source = (ending, m')) :
    m' = (runProgram (eval fuel) program m).machine := by
  rcases Machine.runWith_cases hrun with ⟨⟨e, herror⟩, -⟩ | ⟨program', hparse', rfl⟩
  · rw [hparse] at herror
    cases herror
  · rw [hparse] at hparse'
    cases hparse'
    rfl

/-- What was made on any machine of a session is still there in the end, as it was made. -/
theorem Visited.retains {m last : Machine} (h : Visited m last) :
    m.Crafted ∧ m.Retains last := by
  have A := craft_abides
  induction h with
  | now h => exact ⟨h.crafted, A.refl h.crafted⟩
  | @within _ _ _ _ _ _ program _ h hparse hgets hrun =>
    obtain rfl := Machine.runWith_of_parse hparse hrun
    obtain ⟨hto, hfrom⟩ := A.getsTo h.crafted (fun hev => A.leads_runProgram hev program) hgets
    exact ⟨hto.inv, hfrom⟩
  | @behind _ _ _ _ _ _ _ _ program _ h hparse hevaluates hthere hrun =>
    obtain rfl := Machine.runWith_of_parse hparse hrun
    obtain ⟨hto, hfrom⟩ :=
      A.evaluates h.crafted (fun hev => A.leads_runProgram hev program) hevaluates hthere
    exact ⟨hto.inv, hfrom⟩
  | run before h hrun ih => exact ⟨ih.1, A.trans ih.2 (A.runWith hrun h.crafted).rel⟩
  | recover before h ih => exact ⟨ih.1, A.trans ih.2 (A.recover h.crafted).rel⟩

/-! ## Instances in order -/

/-- What can be relied on of the instances that the machine `m` has, when the session that has been
on it is on the machine `last`. -/
structure InstancesInOrder (m last : Machine) : Prop where
  /-- An instance has the members of a definition that is not abstract. None of them is from an
  abstract function. -/
  made : ∀ {h}, m.Has h → ∃ d : BoxDef, (m.instanceAt h).MadeFrom d ∧ d.isAbstract = false ∧
    ∀ f ∈ d.methods, f.isAbstract = false
  /-- Behind a function there is no field. -/
  fieldsFirst : ∀ {h}, m.Has h → (m.instanceAt h).members.Pairwise
    fun a b => b.fieldName?.isSome → a.fieldName?.isSome
  /-- No two fields have one name. -/
  fields : ∀ h, ((m.instanceAt h).members.filterMap Member.fieldName?).Nodup
  /-- No two functions have one name and number of parameters. -/
  functions : ∀ h, ((m.instanceAt h).members.filterMap Member.signature?).Nodup
  /-- What is created is new, and made from the definition that stands under the name. -/
  created : ∀ {fuel name h m'}, instantiate (eval fuel) name m = ⟨.ok h, m'⟩ →
    ¬m.Has h ∧ m'.Has h ∧ ∃ d, m.boxes.get? name = some d ∧ (m'.instanceAt h).MadeFrom d
  /-- An instance stays, and its members stay what they are. -/
  kept : ∀ {h}, m.Has h → last.Has h ∧ (last.instanceAt h).members = (m.instanceAt h).members
  /-- They are the same on all machines of the session. -/
  same : ∀ {t h}, Visited t last → m.Has h → t.Has h →
    (t.instanceAt h).members = (m.instanceAt h).members
  /-- Where the definition that an instance was made from stands under its name, the built-in
  extension says that the instance is one of it. -/
  fits : ∀ {t h d}, Visited t last → m.Has h → t.Has h → (m.instanceAt h).MadeFrom d →
    t.boxes.get? d.name = some d → ∀ {fuel target name m₀},
    eval (fuel + 1) target m₀ = ⟨.ok (.object h), t⟩ → Text.toLower name = "isinstanceof" →
    declaredFor? "isinstanceof" (.object h) 1 t = none →
    eval (fuel + 2) (.extension target name [.str d.name]) m₀ = ⟨.ok (.int 1), t⟩

section Order

variable {m last t m' : Machine} {h : Handle} {d : BoxDef}

theorem BoxDef.members_fieldsFirst (d : BoxDef) :
    d.members.Pairwise fun a b => b.fieldName?.isSome → a.fieldName?.isSome := by
  refine List.pairwise_append.2 ⟨?_, ?_, ?_⟩
  · exact List.pairwise_map.2 (List.pairwise_of_forall fun _ _ _ => rfl)
  · exact List.pairwise_map.2 (List.pairwise_of_forall fun _ _ hb => by cases hb)
  · intro a ha _ _ _
    obtain ⟨f, -, rfl⟩ := List.mem_map.1 ha
    rfl

theorem boxNamed_of_some {name : String} (h : m.boxes.get? name = some d) :
    boxNamed name m = ⟨.ok d, m⟩ := by
  have hlooked : Exec.look (·.boxes.get? name) m = ⟨.ok (some d), m⟩ := by
    rw [← h]
    rfl
  unfold boxNamed
  rw [Exec.bind_ok hlooked]
  rfl

/-- A name that is found is registered, and looking for it changes nothing. -/
theorem ok_of_boxNamed {name : String} (h : boxNamed name m = ⟨.ok d, m'⟩) :
    m.boxes.get? name = some d ∧ m' = m := by
  cases hknown : m.boxes.get? name with
  | none =>
    have hlooked : Exec.look (·.boxes.get? name) m = ⟨.ok none, m⟩ := by
      rw [← hknown]
      rfl
    unfold boxNamed at h
    rw [Exec.bind_ok hlooked] at h
    cases h
  | some e =>
    rw [boxNamed_of_some hknown] at h
    cases h
    exact ⟨rfl, rfl⟩

/-- What is created is new, and made from the definition that stands under the name. -/
theorem Machine.Crafted.instantiate (hm : m.Crafted) {fuel : Nat} {name : String}
    (hends : instantiate (eval fuel) name m = ⟨.ok h, m'⟩) :
    ¬m.Has h ∧ m'.Has h ∧ ∃ d, m.boxes.get? name = some d ∧ (m'.instanceAt h).MadeFrom d := by
  unfold BoxScript.instantiate at hends
  obtain ⟨d, m₁, hnamed, hcreates⟩ := Exec.ok_of_bind hends
  obtain ⟨hknown, rfl⟩ := ok_of_boxNamed hnamed
  cases hconcrete : d.isAbstract with
  | true =>
    rw [hconcrete] at hcreates
    cases hcreates
  | false =>
    rw [hconcrete] at hcreates
    obtain ⟨fields, m₂, hmakes, hallocates⟩ := Exec.ok_of_bind hcreates
    have hnone : FieldSlots [].reverse [] := .nil
    obtain ⟨hfields, hbefore⟩ := craft_abides.makeFields hm hnone hmakes
    have hnext := eq_next_of_allocate hallocates
    have hmade := madeFrom_allocate hfields m₂
    have hsize := size_allocate d fields m₂
    rw [hallocates] at hmade hsize
    rw [hnext]
    refine ⟨fun hold => Nat.lt_irrefl _ (hbefore.rel.has hold), ?_, d, hknown, hmade⟩
    exact Nat.lt_of_lt_of_eq (Nat.lt_succ_self m₂.heap.instances.size) hsize.symm

theorem eval_isInstanceOf {fuel : Nat} {target : Node} {name : String} {m₀ : Machine}
    (hfits : (t.instanceAt h).fits d = true) (hknown : t.boxes.get? d.name = some d)
    (htarget : eval (fuel + 1) target m₀ = ⟨.ok (.object h), t⟩)
    (hname : Text.toLower name = "isinstanceof")
    (hbuiltin : declaredFor? "isinstanceof" (.object h) 1 t = none) :
    eval (fuel + 2) (.extension target name [.str d.name]) m₀ = ⟨.ok (.int 1), t⟩ := by
  show callExtension (eval (fuel + 1)) target name [.str d.name] m₀ = _
  unfold callExtension
  rw [Exec.bind_ok htarget, hname]
  show (Exec.look (declaredFor? "isinstanceof" (.object h) 1) >>= _ : Exec Value) t = _
  have hlooked : Exec.look (declaredFor? "isinstanceof" (.object h) 1) t = ⟨.ok none, t⟩ := by
    rw [← hbuiltin]
    rfl
  rw [Exec.bind_ok hlooked]
  show callBuiltin "isinstanceof" (.object h) [.str d.name] t = _
  have hanswer : ofInstance "isinstanceof" h [.str d.name] t = ⟨.ok (some (.int 1)), t⟩ := by
    show (boxNamed d.name >>= fun d => Exec.look (·.instanceAt h) >>= fun i =>
      pure (some (.ofBool (i.fits d))) : Exec (Option Value)) t = _
    rw [Exec.bind_ok (boxNamed_of_some hknown)]
    show (⟨.ok (some (.ofBool ((t.instanceAt h).fits d))), t⟩ : Outcome (Option Value)) = _
    rw [hfits]
    rfl
  exact Exec.bind_ok hanswer

end Order

/-- **An instance keeps the shape that it was created with**, from any machine of a session on. -/
theorem instances_in_order {m last : Machine} (h : Visited m last) : InstancesInOrder m last := by
  obtain ⟨hm, hlast⟩ := h.retains
  -- what two machines have in common with the last one they have in common
  have hsame : ∀ {t o}, Visited t last → m.Has o → t.Has o →
      (m.instanceAt o).Same (t.instanceAt o) :=
    fun ht ho ho' => (hlast.same ho).trans (ht.retains.2.same ho').symm
  constructor
  case made =>
    intro o ho
    obtain ⟨d, hd, hmade⟩ := hm.made ho
    exact ⟨d, hmade, hd.notAbstract, hd.concrete⟩
  case fieldsFirst =>
    intro o ho
    obtain ⟨d, -, hmade⟩ := hm.made ho
    rw [hmade.members]
    exact d.members_fieldsFirst
  case fields => exact fun o => Instance.fieldNames_members _ ▸ (hm.instances o).fields
  case functions => exact fun o => Instance.signatures_members _ ▸ (hm.instances o).methods
  case created => exact fun hends => hm.instantiate hends
  case kept => exact fun ho => ⟨hlast.has ho, (hlast.same ho).members⟩
  case same => exact fun ht ho ho' => (hsame ht ho ho').members
  case fits =>
    intro t o d ht ho ho' hmade hknown fuel target name m₀ htarget hname hbuiltin
    exact eval_isInstanceOf (hmade.same (hsame ht ho ho')).fits hknown htarget hname hbuiltin

/-- The cell after a run that sets its field. -/
def OneCell.set : Machine :=
  (runProgram (eval 9) [.setField "b" "x" (.int 7)] OneCell.machine).machine

theorem OneCell.run_set : OneCell.machine.runWith 9 "b.x = 7" = (.finished, OneCell.set) := by
  have hscan : Token.scan "b.x = 7" = .ok [(.ident "b", ⟨0, 1⟩), (.sign .dot, ⟨1, 2⟩),
      (.ident "x", ⟨2, 3⟩), (.sign .eq, ⟨4, 5⟩), (.int 7, ⟨6, 7⟩)] := by
    decide +kernel
  have hparse : Program.ofSource "b.x = 7" = .ok [.setField "b" "x" (.int 7)] := by
    rw [ofSource_of_scan hscan]
    cbv
  unfold Machine.runWith
  rw [hparse]
  rfl

/-- The instance of the cell has its two members, also after its field is set, and the built-in
extension says that it is one of the definition. -/
theorem instances_in_order_cell :
    Visited OneCell.machine OneCell.set ∧ (OneCell.set.instanceAt ⟨0⟩).members
        = [.field "x" .exposed, .function OneCell.put .exposed] ∧
      eval 3 (.extension (.var "b") "isInstanceOf" [.str "anonymous_0"]) OneCell.set
        = ⟨.ok (.int 1), OneCell.set⟩ := by
  have hset : Idle OneCell.set := .run OneCell.idle OneCell.run_set nofun
  have hvisited : Visited OneCell.machine OneCell.set :=
    .run (.now OneCell.idle) OneCell.idle OneCell.run_set
  have H := instances_in_order hvisited
  have hhas : OneCell.machine.Has ⟨0⟩ := Nat.zero_lt_one
  have hmembers : (OneCell.machine.instanceAt ⟨0⟩).members
      = [.field "x" .exposed, .function OneCell.put .exposed] := rfl
  let d : BoxDef := .ofDecl ⟨"anonymous_0", none, false, false, [⟨"x", .str "", .exposed⟩],
    [⟨OneCell.put, .exposed, false⟩]⟩
  have hmade : (OneCell.machine.instanceAt ⟨0⟩).MadeFrom d := ⟨rfl, hmembers⟩
  have hknown : OneCell.set.boxes.get? d.name = some d := rfl
  have htarget : eval 2 (.var "b") OneCell.set = ⟨.ok (.object ⟨0⟩), OneCell.set⟩ := rfl
  have hbuiltin : declaredFor? "isinstanceof" (.object ⟨0⟩) 1 OneCell.set = none := rfl
  refine ⟨hvisited, (H.kept hhas).2.trans hmembers, ?_⟩
  exact H.fits (.now hset) hhas (H.kept hhas).1 hmade hknown htarget (by cbv) hbuiltin

end BoxScript
