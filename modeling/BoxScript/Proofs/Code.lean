import BoxScript.Eval

/-!
# The code on a machine

Code reaches a run from three sides: from the tree that is evaluated, from the tables and the
instances of the machine, and from scripts that are imported. `Node.Parts` and `Machine.CodeIn` say
of the first two that a property `N` holds of all expressions and a property `R` of all routines
that come from there, and `Machine.ScriptsIn` speaks of the third. A definition stays within the
properties when it is completed with its base, and so does the definition that reproduces an
instance.
-/

namespace BoxScript

variable {N : Node → Prop} {R : Routine → Prop}

/-- The expression of a field that has one is in `N`. -/
def FieldInit.In (N : Node → Prop) : FieldInit → Prop
  | expr node => N node
  | fixed _ => True

/-- The expressions of a definition are in `N` and its routines in `R`. -/
structure BoxDef.In (N : Node → Prop) (R : Routine → Prop) (d : BoxDef) : Prop where
  fields : ∀ f ∈ d.fields, f.init.In N
  methods : ∀ f ∈ d.methods, R f.routine

/-- The expressions on the machine are in `N` and its routines in `R`. -/
structure Machine.CodeIn (N : Node → Prop) (R : Routine → Prop) (m : Machine) : Prop where
  functions : ∀ h s r, (m.heap.functions.get h).get? s = some r → R r
  boxes : ∀ h s d, (m.heap.boxes.get h).get? s = some d → d.In N R
  extensions : ∀ h s e, (m.heap.extensions.get h).get? s = some e → R e.routine
  instances : ∀ h, ∀ r ∈ (m.heap.instances.get h).routines, R r

/-- The expressions right below a node are in `N`, and the routines that it declares in `R`. The
statements of branches and loops are not meant. -/
def Node.Parts (N : Node → Prop) (R : Routine → Prop) : Node → Prop
  | int _ | str _ | var _ | input | create _ | field _ _ | giveBack none => True
  | assign _ v | negate v | print v _ | setField _ _ v | raise v | giveBack (some v) => N v
  | importScript v | readLines v | readText v | fileExists v => N v
  | ifElse c _ _ | whileDo c _ | forDo _ c _ _ => N c
  | binary _ a b | index a b => N a ∧ N b
  | function r => R r
  | box d => (BoxDef.ofDecl d).In N R
  | call _ args | array args => ∀ a ∈ args, N a
  | extension target _ args => N target ∧ ∀ a ∈ args, N a
  | method _ first further => (∀ a ∈ first.args, N a) ∧ ∀ c ∈ further, ∀ a ∈ c.args, N a
  | extend a b c d => N a ∧ N b ∧ N c ∧ N d

/-- The statements right below a node: those of branches and loops, and the clauses of a `for`. -/
def Node.statements : Node → List Node
  | ifElse _ yes no => yes ++ no.getD []
  | whileDo _ body => body
  | forDo init _ increment body => init :: increment :: body
  | _ => []

/-- Every statement of the body is in `S`. -/
def Routine.BodyIn (S : Node → Prop) (r : Routine) : Prop := ∀ n ∈ r.body, S n

/-- Whether a node is a statement that directs the run: a branch, a loop or a `return`. -/
def Node.isControl : Node → Bool
  | ifElse .. | whileDo .. | forDo .. | giveBack _ => true
  | _ => false

/-- Whether a node is a branch or a loop, which run in a block of their own. -/
def Node.isBlock : Node → Bool
  | ifElse .. | whileDo .. | forDo .. => true
  | _ => false

/-- Whether a contract may tell where a node is evaluated: an assignment to a variable or a field, a
declaration, or a call of a method or of an extension. -/
def Node.isAct : Node → Bool
  | assign .. | setField .. | function _ | box _ | method .. | extension .. => true
  | _ => false

/-- A fragment: expressions `N` and statements `S` with all that they are made of. -/
structure Fragment (N S : Node → Prop) : Prop where
  expression : ∀ {node}, N node → S node
  parts : ∀ {node}, S node → node.Parts N (Routine.BodyIn S)
  below : ∀ {node}, S node → ∀ n ∈ node.statements, S n

/-- A language: a fragment that every program is in. -/
structure Language (N S : Node → Prop) : Prop extends Fragment N S where
  parsed : ∀ {source program}, Program.ofSource source = .ok program → ∀ n ∈ program, S n

/-- The scripts that can be imported are in `S`. -/
def Machine.ScriptsIn (S : Node → Prop) (m : Machine) : Prop :=
  ∀ {path source program}, m.files.readText path = .ok source →
    Program.ofSource source = .ok program → ∀ n ∈ program, S n

theorem Language.scriptsIn {N S : Node → Prop} (L : Language N S) (m : Machine) : m.ScriptsIn S :=
  fun _ hparse => L.parsed hparse

theorem BoxDef.In.mono {N' : Node → Prop} {R' : Routine → Prop} (hN : ∀ n, N n → N' n)
    (hR : ∀ r, R r → R' r) {d : BoxDef} (h : d.In N R) : d.In N' R' where
  fields f hf := by
    have hinit := h.fields f hf
    cases hi : f.init with
    | expr node =>
      rw [hi] at hinit
      exact hN node hinit
    | fixed => trivial
  methods f hf := hR _ (h.methods f hf)

theorem Node.Parts.mono {N' : Node → Prop} {R' : Routine → Prop} (hN : ∀ n, N n → N' n)
    (hR : ∀ r, R r → R' r) {node : Node} (h : node.Parts N R) : node.Parts N' R' := by
  cases node with
  | function r => exact hR r h
  | box d => exact BoxDef.In.mono hN hR h
  | giveBack value =>
    cases value with
    | none => trivial
    | some v => exact hN v h
  | binary | index => exact ⟨hN _ h.1, hN _ h.2⟩
  | call | array => exact fun a ha => hN a (h a ha)
  | extension => exact ⟨hN _ h.1, fun a ha => hN a (h.2 a ha)⟩
  | method => exact ⟨fun a ha => hN a (h.1 a ha), fun c hc a ha => hN a (h.2 c hc a ha)⟩
  | extend => exact ⟨hN _ h.1, hN _ h.2.1, hN _ h.2.2.1, hN _ h.2.2.2⟩
  | int | str | var | input | create | field => trivial
  | _ => exact hN _ h

/-! ## All nodes -/

/-- Any node. -/
def AnyNode (_ : Node) : Prop := True

theorem anyNode (node : Node) : AnyNode node := trivial

theorem BoxDef.in_any (d : BoxDef) : d.In AnyNode (Routine.BodyIn AnyNode) :=
  ⟨fun f _ => by cases f.init <;> trivial, fun _ _ _ _ => trivial⟩

theorem Machine.codeIn_any (m : Machine) : m.CodeIn AnyNode (Routine.BodyIn AnyNode) :=
  ⟨fun _ _ _ _ _ _ => trivial, fun _ _ d _ => d.in_any, fun _ _ _ _ _ _ => trivial,
    fun _ _ _ _ _ => trivial⟩

theorem anyNode_language : Language AnyNode AnyNode where
  expression _ := trivial
  below _ _ _ := trivial
  parsed _ _ _ := trivial
  parts {node} _ := by
    cases node with
    | box d => exact (BoxDef.ofDecl d).in_any
    | giveBack value => cases value <;> trivial
    | _ => simp [Node.Parts, AnyNode, Routine.BodyIn]

/-! ## Definitions and instances -/

theorem BoxDef.in_inherit {d base : BoxDef} (hd : d.In N R) (hb : base.In N R) :
    (d.inherit base).In N R := by
  constructor
  · intro f hf
    rcases mem_or_mem_of_inheritBy hf with hf | hf
    · exact hd.fields f hf
    · exact hb.fields f hf
  · intro f hf
    rcases mem_or_mem_of_inheritBy hf with hf | hf
    · exact hd.methods f hf
    · exact hb.methods f hf

/-- A completed definition is the declared one, with the members of its base if it has one. -/
theorem BoxDef.eq_of_complete {d whole : BoxDef} {base : Option BoxDef}
    (h : d.complete base = .ok whole) : whole = base.elim d d.inherit := by
  unfold complete at h
  cases hf : firstRepeated? [] (d.fields.map (·.name)) with
  | some field =>
    rw [hf] at h
    cases h
  | none =>
    cases hm : firstRepeated? [] (d.methods.map (·.signature)) with
    | some signature =>
      rw [hf, hm] at h
      cases h
    | none =>
      rw [hf, hm] at h
      cases base <;>
      · dsimp only at h
        split at h
        · cases h
        · injection h with h
          exact h.symm

theorem BoxDef.in_complete {d whole : BoxDef} {base : Option BoxDef} (hd : d.In N R)
    (hb : ∀ b, base = some b → b.In N R) (h : d.complete base = .ok whole) : whole.In N R := by
  rw [eq_of_complete h]
  cases base with
  | none => exact hd
  | some b => exact in_inherit hd (hb b rfl)

/-- The definition that is made of an instance has the code of its functions, and no other. -/
theorem Instance.in_toBoxDef {i : Instance} (h : ∀ r ∈ i.routines, R r) (name : String) :
    (i.toBoxDef name).In N R := by
  constructor
  · intro f hf
    obtain ⟨slot, hslot, hf⟩ := List.mem_filterMap.1 hf
    cases slot with
    | field n value access =>
      dsimp only at hf
      split at hf
      · cases hf
      · injection hf with hf
        subst hf
        trivial
    | function => cases hf
  · intro f hf
    obtain ⟨slot, hslot, hf⟩ := List.mem_filterMap.1 hf
    cases slot with
    | field => cases hf
    | function routine access locals =>
      injection hf with hf
      subst hf
      exact h routine (List.mem_filterMap.2 ⟨_, hslot, rfl⟩)

/-- A method of an instance is one of its routines, and has the signature that was asked for. -/
theorem Instance.method?_eq_some {i : Instance} {signature : Signature} {routine : Routine}
    {access : Access} {locals : Locals}
    (h : i.method? signature = some (routine, access, locals)) :
    Slot.function routine access locals ∈ i.slots ∧ routine.signature = signature := by
  obtain ⟨before, slot, after, hslots, hslot, -⟩ := List.findSome?_eq_some_iff.1 h
  cases slot with
  | field => cases hslot
  | function r a l =>
    simp only [Slot.asFunction?] at hslot
    split at hslot
    · next hsig =>
      cases hslot
      rw [hslots]
      exact ⟨List.mem_append_right _ List.mem_cons_self, hsig⟩
    · cases hslot

theorem Instance.mem_routines {i : Instance} {routine : Routine} {access : Access}
    {locals : Locals} (h : Slot.function routine access locals ∈ i.slots) :
    routine ∈ i.routines :=
  List.mem_filterMap.2 ⟨_, h, rfl⟩

/-! ## Registrations -/

/-- The base of a definition, as it stands in a table. -/
def BoxDef.BaseIn (d : BoxDef) (boxes : Boxes) (base : Option BoxDef) : Prop :=
  match d.base with
  | none => base = none
  | some name => ∃ b, boxes.get? name = some b ∧ base = some b

theorem BoxDef.BaseIn.registered {d base : BoxDef} {boxes : Boxes}
    (h : d.BaseIn boxes (some base)) : ∃ name, boxes.get? name = some base := by
  unfold BaseIn at h
  split at h
  · cases h
  · next name _ =>
    obtain ⟨b, hb, heq⟩ := h
    cases heq
    exact ⟨name, hb⟩

/-- The machine registers a definition as `whole`: completed with its base, and with no const
definition in the way. -/
structure Machine.Accepts (m : Machine) (d whole : BoxDef) : Prop where
  complete : ∃ base, d.BaseIn m.boxes base ∧ d.complete base = .ok whole
  unfixed : ∀ old, m.boxes.get? d.name = some old → old.isConst = false

theorem registerBox_of_const {d old : BoxDef} {m : Machine}
    (hold : m.boxes.get? d.name = some old) (hconst : old.isConst = true) :
    registerBox d m = ⟨.error (.constRedefined old.name), m⟩ := by
  simp only [registerBox, Exec.bind_apply, Exec.look, hold, hconst]
  rfl

/-- What is left when no const definition stands in the way. -/
theorem registerBox_of_open {d : BoxDef} {m : Machine}
    (hopen : ∀ old, m.boxes.get? d.name = some old → old.isConst = false) :
    registerBox d m = ((d.base.elim (pure none) fun name =>
        (m.boxes.get? name).elim (Exec.fail (.baseNotFound name)) fun base =>
          pure (some base)) >>= fun base =>
      (Exec.ofExcept (d.complete base) >>= fun d =>
        Exec.update fun m => m.updateBoxesAt m.context.boxes (·.insert d.name d))) m := by
  unfold registerBox
  simp only [Exec.bind_apply, Exec.look]
  cases hold : m.boxes.get? d.name with
  | none =>
    cases d.base with
    | none => rfl
    | some name => cases hb : m.boxes.get? name <;> simp only [hb, Option.elim] <;> rfl
  | some old =>
    simp only [hopen old hold, Bool.false_eq_true, if_false]
    cases d.base with
    | none => rfl
    | some name => cases hb : m.boxes.get? name <;> simp only [hb, Option.elim] <;> rfl

/-- Either a constant definition has the name, or none has. -/
theorem const_or_open (boxes : Boxes) (name : String) :
    (∃ old, boxes.get? name = some old ∧ old.isConst = true) ∨
      ∀ old, boxes.get? name = some old → old.isConst = false := by
  by_cases hconst : ∃ old, boxes.get? name = some old ∧ old.isConst = true
  · exact .inl hconst
  · refine .inr fun old hold => Bool.eq_false_iff.2 fun hc => hconst ⟨old, hold, hc⟩

/-- **All that a registration can do**: nothing, or put a completed definition into the table. -/
theorem registerBox_cases (d : BoxDef) (m : Machine) :
    (∃ e, registerBox d m = ⟨.error e, m⟩) ∨
    ∃ whole, m.Accepts d whole ∧
      registerBox d m
        = ⟨.ok (), m.updateBoxesAt m.context.boxes (·.insert whole.name whole)⟩ := by
  rcases const_or_open m.boxes d.name with ⟨old, hold, hconst⟩ | hopen
  · exact .inl ⟨_, registerBox_of_const hold hconst⟩
  rw [registerBox_of_open hopen]
  cases hbase : d.base with
  | none =>
    cases hw : d.complete none with
    | error e => exact .inl ⟨e, by simp [Exec.bind_apply, hw, Exec.ofExcept]⟩
    | ok whole =>
      have hin : d.BaseIn m.boxes none := by simp only [BoxDef.BaseIn, hbase]
      exact .inr ⟨whole, ⟨⟨none, hin, hw⟩, hopen⟩,
        by simp [Exec.bind_apply, hw, Exec.ofExcept, Exec.update]⟩
  | some name =>
    cases hb : m.boxes.get? name with
    | none => exact .inl ⟨.baseNotFound name, by simp [Exec.bind_apply, hb, Exec.fail]⟩
    | some base =>
      cases hw : d.complete (some base) with
      | error e => exact .inl ⟨e, by simp [Exec.bind_apply, hb, hw, Exec.ofExcept]⟩
      | ok whole =>
        have hin : d.BaseIn m.boxes (some base) := by
          simp only [BoxDef.BaseIn, hbase]
          exact ⟨base, hb, rfl⟩
        exact .inr ⟨whole, ⟨⟨some base, hin, hw⟩, hopen⟩,
          by simp [Exec.bind_apply, hb, hw, Exec.ofExcept, Exec.update]⟩

end BoxScript
