import BoxScript.Proofs.Registry

/-!
# The lineage of definitions

A declaration is registered together with the members of its base, so each registered definition
carries what a whole line of declarations says: its own, the one of its base as it was registered
then, and so on. Duplicates are looked for in the declaration only, before the members of the base
are added, and a base can be declared anew between two declarations that name it. Still no member
is there twice, and of several declarations of a member the nearest one counts.

`Lineage` keeps the line of declarations that a definition comes from. That each registered
definition has one is a property of the entries of tables (`Machine.Recorded`), so the invariant
needs a look at the few steps that change a table. That a const definition stays for good is a law
of the registry (`Registry.const_laws`).
-/

namespace BoxScript

/-! ## Members and where they come from -/

/-- The first item with a key is the same whether or not what comes later is left out. -/
theorem find?_inheritBy {α κ : Type} [BEq κ] [LawfulBEq κ] (key : α → κ) (own base : List α)
    (k : κ) : (inheritBy key own base).find? (key · == k)
      = (own ++ base).find? (key · == k) := by
  induction base generalizing own with
  | nil => rw [List.append_nil]; rfl
  | cons b base ih =>
    rw [inheritBy_cons, ih]
    split
    · next hthere =>
      -- the item is left out, and one with its key stands before it
      rw [List.find?_append, List.find?_append, List.find?_cons]
      cases hb : key b == k with
      | false => rfl
      | true =>
        rw [LawfulBEq.eq_of_beq hb, List.any_eq_true, ← List.find?_isSome] at hthere
        obtain ⟨a, ha⟩ := Option.isSome_iff_exists.1 hthere
        rw [ha, Option.some_or, Option.some_or]
    · rw [List.append_assoc, List.singleton_append]

/-- Where no item of the second list has the key of another one, it only matters for them what was
there from the beginning. -/
theorem inheritBy_eq_append {α κ : Type} [BEq κ] [LawfulBEq κ] {key : α → κ} {base : List α}
    (hbase : (base.map key).Nodup) (own : List α) :
    inheritBy key own base = own ++ base.filter fun b => !own.any (key · == key b) := by
  induction base generalizing own with
  | nil => exact (List.append_nil own).symm
  | cons b base ih =>
    rw [List.map_cons, List.nodup_cons] at hbase
    rw [inheritBy_cons, ih hbase.2]
    split
    · next hthere => rw [List.filter_cons_of_neg (by rw [hthere]; exact Bool.false_ne_true)]
    · next hnew =>
      -- `b` is there for all that follow, and none of them has its key
      have hothers : ∀ c ∈ base,
          (!(own ++ [b]).any (key · == key c)) = !own.any (key · == key c) := by
        intro c hc
        have hne : (key b == key c) = false := by
          refine beq_eq_false_iff_ne.2 fun hsame => hbase.1 ?_
          rw [hsame]
          exact List.mem_map_of_mem hc
        simp [hne]
      rw [List.filter_cons_of_pos (by rw [Bool.eq_false_iff.2 hnew]; rfl),
        List.filter_congr hothers, List.append_assoc, List.singleton_append]

/-- No item has a key, or one has it. -/
theorem not_any_key {α κ : Type} [DecidableEq κ] (key : α → κ) (own : List α) (k : κ) :
    (!own.any (key · == k)) = decide (k ∉ own.map key) := by
  rw [Bool.eq_iff_iff, decide_eq_true_eq, Bool.not_eq_true', List.any_eq_false, List.mem_map]
  simp only [beq_iff_eq, not_exists, not_and]

/-- How a registered definition has come about. The list has the definitions that its members are
from: its own declaration, then that of its base as it was registered when the declaration was
evaluated, and so on. A made-up definition reproduces an instance. -/
inductive Lineage : List BoxDef → BoxDef → Prop
  | root {declaration : BoxDecl} {whole : BoxDef} (hbase : declaration.base = none)
      (hwhole : (BoxDef.ofDecl declaration).complete none = .ok whole) :
      Lineage [.ofDecl declaration] whole
  | derived {declaration : BoxDecl} {base whole : BoxDef} {line : List BoxDef}
      (hbase : Lineage line base) (hname : declaration.base = some base.name)
      (hwhole : (BoxDef.ofDecl declaration).complete (some base) = .ok whole) :
      Lineage (.ofDecl declaration :: line) whole
  | madeUp (i : Instance) (name : String) : Lineage [i.toBoxDef name] (i.toBoxDef name)

namespace Lineage

variable {line : List BoxDef} {d : BoxDef}

/-- Of several declarations of a field the nearest one counts. -/
theorem nearest_field (h : Lineage line d) (x : String) :
    d.fields.find? (·.name == x) = (line.flatMap (·.fields)).find? (·.name == x) := by
  induction h with
  | root _ hwhole =>
    rw [BoxDef.eq_of_complete hwhole, List.flatMap_singleton]
    rfl
  | @derived declaration base _ _ _ _ hwhole ih =>
    rw [BoxDef.eq_of_complete hwhole, List.flatMap_cons]
    refine (find?_inheritBy FieldSpec.name _ _ x).trans ?_
    rw [List.find?_append, List.find?_append, ih]
  | madeUp i name => rw [List.flatMap_singleton]

/-- Of several declarations of a function the nearest one counts. -/
theorem nearest_method (h : Lineage line d) (s : Signature) :
    d.methods.find? (·.signature == s) = (line.flatMap (·.methods)).find? (·.signature == s) := by
  induction h with
  | root _ hwhole =>
    rw [BoxDef.eq_of_complete hwhole, List.flatMap_singleton]
    rfl
  | @derived declaration base _ _ _ _ hwhole ih =>
    rw [BoxDef.eq_of_complete hwhole, List.flatMap_cons]
    refine (find?_inheritBy MethodSpec.signature _ _ s).trans ?_
    rw [List.find?_append, List.find?_append, ih]
  | madeUp i name => rw [List.flatMap_singleton]

end Lineage

section Completion

variable {d whole : BoxDef} {base : Option BoxDef}

theorem BoxDef.name_of_complete (h : d.complete base = .ok whole) : whole.name = d.name := by
  rw [eq_of_complete h]
  cases base <;> rfl

/-- Only an abstract definition is completed with a function that is still abstract. -/
theorem BoxDef.concrete_of_complete (h : d.complete base = .ok whole)
    (hconcrete : whole.isAbstract = false) {f : MethodSpec} (hf : f ∈ whole.methods) :
    f.isAbstract = false := by
  have hwhole := eq_of_complete h
  unfold complete at h
  cases hfields : firstRepeated? [] (d.fields.map (·.name)) with
  | some field =>
    rw [hfields] at h
    cases h
  | none =>
    cases hmethods : firstRepeated? [] (d.methods.map (·.signature)) with
    | some signature =>
      rw [hfields, hmethods] at h
      cases h
    | none =>
      -- what is concrete is refused with a function that has no body
      rw [hfields, hmethods] at h
      have hall : (whole.methods.filter (·.isAbstract)).isEmpty = true := by
        subst hwhole
        cases base <;>
        · dsimp only at h
          split at h
          · cases h
          · next hpending =>
            rw [Bool.and_eq_true, Bool.not_eq_true', Bool.not_eq_true', not_and] at hpending
            by_contra hsome
            exact hpending (Bool.eq_false_iff.2 hsome) hconcrete
      rw [List.isEmpty_iff, List.filter_eq_nil_iff] at hall
      exact Bool.eq_false_iff.2 (hall f hf)

end Completion

/-! ## Tables of definitions -/

/-- What is registered under a name has that name, no abstract functions unless it is abstract, and
a lineage. -/
structure BoxDef.Recorded (name : String) (d : BoxDef) : Prop where
  named : d.name = name
  concrete : d.isAbstract = false → ∀ f ∈ d.methods, f.isAbstract = false
  lineage : ∃ line, Lineage line d

/-- All that is registered anywhere is recorded. -/
def Machine.Recorded (m : Machine) : Prop :=
  ∀ table name d, (m.heap.boxes.get table).get? name = some d → BoxDef.Recorded name d

/-- What is registered stays recorded. -/
def recordContract : Contract where
  lax := False
  inv := Machine.Recorded
  rel _ _ := True

/-- A definition that is made of an instance inherits nothing. -/
theorem BoxDef.recorded_toBoxDef (i : Instance) (name : String) :
    Recorded name (i.toBoxDef name) where
  named := rfl
  concrete _ f hf := by
    obtain ⟨slot, -, hslot⟩ := List.mem_filterMap.1 hf
    cases slot with
    | field => cases hslot
    | function => cases hslot; rfl
  lineage := ⟨_, .madeUp i name⟩

/-- What a declaration is registered as is recorded if its base is. -/
theorem Machine.Recorded.accepts {m : Machine} (hm : m.Recorded) {declaration : BoxDecl}
    {whole : BoxDef} (h : m.Accepts (.ofDecl declaration) whole) :
    BoxDef.Recorded whole.name whole := by
  obtain ⟨base, hbase, hwhole⟩ := h.complete
  refine ⟨rfl, fun hconcrete f hf => BoxDef.concrete_of_complete hwhole hconcrete hf, ?_⟩
  cases hname : declaration.base with
  | none =>
    have hnone : base = none := by simpa only [BoxDef.BaseIn, BoxDef.ofDecl, hname] using hbase
    subst hnone
    exact ⟨_, .root hname hwhole⟩
  | some name =>
    have hsome : ∃ b, m.boxes.get? name = some b ∧ base = some b := by
      simpa only [BoxDef.BaseIn, BoxDef.ofDecl, hname] using hbase
    obtain ⟨b, hb, rfl⟩ := hsome
    obtain ⟨hnamed, -, line, hline⟩ := hm _ name b hb
    exact ⟨_, .derived hline (hname.trans (congrArg some hnamed.symm)) hwhole⟩

namespace Machine.Recorded

variable {m m' : Machine}

theorem insert (hm : m.Recorded) {table : Handle} {name : String} {d : BoxDef}
    (hd : BoxDef.Recorded name d)
    (h : m'.heap.boxes = m.heap.boxes.modify table (·.insert name d)) : m'.Recorded := by
  have hentries : m'.heap.boxes.EntriesIn BoxDef.Recorded := by
    rw [h]
    exact Pool.EntriesIn.modify hm table fun htable => htable.insert hd
  exact hentries

theorem drop (hm : m.Recorded) (table : Handle) (name : String) :
    (dropBox table name m).Recorded :=
  Pool.EntriesIn.modify (P := BoxDef.Recorded) hm table fun htable => htable.erase name

theorem forked (hm : m.Recorded) : m.forked.Recorded :=
  Pool.EntriesIn.push (P := BoxDef.Recorded) hm (hm m.context.boxes)

theorem merged (hm : m'.Recorded) (m : Machine) : (m.merged m').Recorded :=
  Pool.EntriesIn.mergeCell (P := BoxDef.Recorded) hm m.context.boxes m'.context.boxes

end Machine.Recorded

/-- No step registers anything that is not recorded. -/
theorem record_frames : recordContract.Frames AnyNode AnyNode where
  everywhere := ⟨fun _ _ => trivial, fun _ _ => trivial⟩
  fragment := anyNode_language.toFragment
  scripts {m} _ := anyNode_language.scriptsIn m
  code {m} _ := m.codeIn_any
  refl _ := trivial
  trans _ _ := trivial
  console _ hm := ⟨hm, trivial⟩
  assign _ _ _ moves := ⟨moves.inv, trivial⟩
  declare _ _ hm := ⟨hm, trivial⟩
  -- only a statement registers a definition whose lineage is not its own
  register _ accepted _ hm := ⟨hm.insert (hm.accepts accepted) rfl, trivial⟩
  extend _ _ _ hm := ⟨hm, trivial⟩
  allocate := by
    intro _ m _ d fields _ _ _ _ hm
    obtain ⟨methods, heap, grown, -, hmade⟩ := allocate_cases d fields m
    refine ⟨?_, trivial⟩
    rw [hmade]
    show ∀ table name e, (heap.boxes.get table).get? name = some e → _
    rw [grown.boxes]
    exact hm
  setField _ _ _ hm := ⟨hm, trivial⟩
  linkIn _ hm := hm.insert (BoxDef.recorded_toBoxDef _ _) rfl
  linkOut _ _ moves := ⟨moves.inv.drop _ _, trivial⟩
  linkRefused := by
    intro m hm
    have hcounted : Machine.Recorded { m with chained := m.chained + 1 } := hm
    exact ⟨hcounted.drop _ _, trivial⟩
  push _ hm := ⟨hm, trivial⟩
  dropSignal hm := ⟨hm, trivial⟩
  bindParams _ _ hm := ⟨hm, trivial⟩
  scopeIn _ hm := hm
  scopeOut _ _ moves := ⟨moves.inv, trivial⟩
  clauseIn hm := hm
  clauseOut _ moves := ⟨moves.inv, trivial⟩
  callIn hm _ := hm
  callOut _ _ moves := ⟨moves.inv, trivial⟩
  methodIn hm _ := hm
  methodOut _ _ moves := ⟨moves.inv, trivial⟩
  fork hm := hm.forked
  merge _ moves := ⟨moves.inv.merged _, trivial⟩
  discard _ _ moves := ⟨moves.inv, trivial⟩

/-- Every definition that a session has is recorded with its lineage. -/
theorem Reachable.recorded {m : Machine} (h : Reachable m) : m.Recorded := by
  refine record_frames.inv_of_reachable anyNode_language id (fun _ _ => ?_) (fun _ _ hm => hm) h
  exact Pool.entriesIn_new (P := BoxDef.Recorded)

/-! ## Const definitions -/

namespace Registry

variable {m : Machine} {name : String} {d : BoxDef}

/-- A const definition is not replaced or removed, unless its name is one of the made-up ones. -/
theorem const_laws (hconst : d.isConst = true) (hname : ∀ k, name ≠ chainName k) :
    Laws (·.get? name = some d) (fun r r' => r.get? name = some d → r'.get? name = some d)
      fun _ _ => True where
  refl _ := id
  trans _ _ h h' := fun hentry => h' (h hentry)
  declare := by
    intro m declaration whole _ accepted huse hentry
    -- a statement is refused that would register something in its place
    have hother : name ≠ whole.name := by
      obtain ⟨base, -, hwhole⟩ := accepted.complete
      rw [BoxDef.name_of_complete hwhole]
      rintro rfl
      rw [accepted.unfixed d hentry] at hconst
      cases hconst
    have hstill : (m.registry.declare whole).get? name = some d := by
      rw [get?_declare huse, if_neg hother]
      exact hentry
    exact ⟨hstill, fun _ => hstill⟩
  linkIn := by
    intro r d' huse hentry
    rw [get?_link huse, if_neg (hname _)]
    exact hentry
  linkOut := by
    intro r r' d' huse keeps _ hentry _
    have huse' := keeps.inUse ((keeps_link r d').inUse huse)
    have hactive : r'.active = r.active := keeps.active
    have hstill : (r.unlink r').get? name = some d := by
      rw [get?_unlink huse' hactive, if_neg (hname _)]
      exact hentry
    exact ⟨hstill, fun _ => hstill⟩
  linkRefused := by
    intro r huse hentry
    have hcounted : r.counted.InUse := huse
    have hstill : (r.unlink r.counted).get? name = some d := by
      rw [get?_unlink (r := r) hcounted rfl, if_neg (hname _)]
      exact hentry
    exact ⟨hstill, fun _ => hstill⟩
  fork hentry := by
    rw [get?_fork]
    exact hentry
  merge := by
    intro r sub huse keeps hentry _ _
    have hstill : (r.merge sub).get? name = some d := by
      rw [get?_merge huse keeps, hentry]
      rfl
    exact ⟨hstill, fun _ => hstill⟩
  discard := by
    intro r sub made _ huse keeps hentry _ _
    have hstill : (r.discard sub made).get? name = some d := by
      rw [get?_discard huse keeps]
      exact hentry
    exact ⟨hstill, fun _ => hstill⟩

/-- What a run of a program makes of the registry. -/
theorem Laws.program {inv : Registry → Prop} {rel : Registry → Registry → Prop}
    (L : Laws inv rel fun _ _ => True) (huse : m.registry.InUse) (hm : inv m.registry) (fuel : Nat)
    (program : Program) : rel m.registry
      (runProgram (BoxScript.eval fuel) program m).machine.registry := by
  have hstart : (contract inv rel fun _ _ => True).inv m := ⟨huse, hm⟩
  have hlifts : (contract inv rel fun _ _ => True).Lifts AnyNode (α := Unit)
      (runProgram · program) m := fun _ _ h =>
    Contract.kept_runProgram L.rules.toGround (fun n _ => h n (anyNode n)) m hstart
  exact (L.rules.moves_of_throughout trivial hlifts (throughout_true fuel _ m)).rel.2

end Registry

/-- The machines that a session gets to from one of those between its runs. -/
inductive Later (m : Machine) : Machine → Prop
  | now : Later m m
  | run {t t' : Machine} {fuel : Nat} {source : String} {ending : Ending} (h : Later m t)
      (hrun : t.runWith fuel source = (ending, t')) (hends : ending ≠ .unfinished) : Later m t'
  | recover {t : Machine} (h : Later m t) : Later m t.recover

/-- A session that goes on from an idle machine gets to idle machines. -/
theorem Later.idle {m t : Machine} (h : Later m t) (hm : Idle m) : Idle t := by
  induction h with
  | now => exact hm
  | run _ hrun hends ih => exact .run ih hrun hends
  | recover _ ih => exact .recover ih

/-! ## Definitions in order -/

/-- What a declaration makes of the machine `m`, if it is registered as `whole`. -/
structure Declares (m : Machine) (declaration : BoxDecl) (whole : BoxDef) (m' : Machine) :
    Prop where
  named : whole.name = declaration.name
  isConst : whole.isConst = declaration.isConst
  isAbstract : whole.isAbstract = declaration.isAbstract
  /-- Without a base a definition has its own members. -/
  alone : declaration.base = none → whole = .ofDecl declaration
  /-- With a base it has its own members, and then those of the base, as it is registered now, that
  it does not redeclare. -/
  derived : ∀ {b}, declaration.base = some b → ∃ base, m.boxes.get? b = some base ∧
    whole.fields = (BoxDef.ofDecl declaration).fields
      ++ base.fields.filter (·.name ∉ (BoxDef.ofDecl declaration).fields.map (·.name)) ∧
    whole.methods = (BoxDef.ofDecl declaration).methods
      ++ base.methods.filter (·.signature ∉ (BoxDef.ofDecl declaration).methods.map (·.signature))
  /-- It stands under its name, and nothing else is changed. -/
  registered : m' = m.updateBoxesAt m.context.boxes (·.insert declaration.name whole)

/-- What can be relied on of the definitions that are registered on the machine `m`. -/
structure DefinitionsInOrder (m : Machine) : Prop where
  /-- A definition stands under its own name. -/
  named : ∀ {table name d}, (m.heap.boxes.get table).get? name = some d → d.name = name
  /-- No two fields have one name, and no two functions one name and number of parameters. -/
  regular : ∀ {table name d}, (m.heap.boxes.get table).get? name = some d →
    (d.fields.map (·.name)).Nodup ∧ (d.methods.map (·.signature)).Nodup
  /-- Only an abstract definition has abstract functions. -/
  concrete : ∀ {table name d f}, (m.heap.boxes.get table).get? name = some d → f ∈ d.methods →
    f.isAbstract = true → d.isAbstract = true
  /-- Along the line of declarations that a definition comes from the nearest one counts. -/
  nearest : ∀ {table name d}, (m.heap.boxes.get table).get? name = some d →
    ∃ line, Lineage line d ∧
      (∀ x, d.fields.find? (·.name == x) = (line.flatMap (·.fields)).find? (·.name == x)) ∧
      ∀ s, d.methods.find? (·.signature == s) = (line.flatMap (·.methods)).find? (·.signature == s)
  /-- A declaration fails and changes nothing, or its definition is registered. -/
  declared : ∀ (fuel : Nat) (declaration : BoxDecl),
    (∃ e, eval (fuel + 1) (.box declaration) m = ⟨.error e, m⟩) ∨
      ∃ whole m', eval (fuel + 1) (.box declaration) m = ⟨.ok .void, m'⟩ ∧
        Declares m declaration whole m'
  /-- A const definition stays through every evaluation, unless its name is one of those that are
  made up. -/
  const : ∀ {name d}, m.boxes.get? name = some d → d.isConst = true →
    (∀ k, name ≠ chainName k) → ∀ (fuel : Nat) (node : Node),
    (eval fuel node m).machine.boxes.get? name = some d ∧
      ((eval fuel node m).result ≠ .unfinished →
        Throughout (fun _ there => there.boxes.get? name = some d) fuel (· node) m)
  /-- It stays for the rest of the session. -/
  permanent : ∀ {name d}, m.boxes.get? name = some d → d.isConst = true →
    (∀ k, name ≠ chainName k) → Idle m → ∀ {t}, Later m t → t.boxes.get? name = some d

section Order

variable {m : Machine} {declaration : BoxDecl} {whole : BoxDef}

/-- A definition that is accepted is what its declaration says, with what it inherits. -/
theorem Machine.Accepts.declares (hm : m.Shaped) (h : m.Accepts (.ofDecl declaration) whole) :
    Declares m declaration whole
      (m.updateBoxesAt m.context.boxes (·.insert whole.name whole)) := by
  obtain ⟨base, hbase, hwhole⟩ := h.complete
  have heq := BoxDef.eq_of_complete hwhole
  have hnamed : whole.name = declaration.name := BoxDef.name_of_complete hwhole
  unfold BoxDef.BaseIn at hbase
  constructor
  case named => exact hnamed
  case isConst => rw [heq]; cases base <;> rfl
  case isAbstract => rw [heq]; cases base <;> rfl
  case alone =>
    intro hnone
    rw [show (BoxDef.ofDecl declaration).base = none from hnone] at hbase
    rw [heq, show base = none from hbase]
    rfl
  -- of a base with members told apart, those are added that the declaration does not give itself
  case derived =>
    intro b hsome
    rw [show (BoxDef.ofDecl declaration).base = some b from hsome] at hbase
    obtain ⟨found, hfound, rfl⟩ := hbase
    have hregular : found.Regular := hm.definitions _ b found hfound
    refine ⟨found, hfound, ?_, ?_⟩
    · rw [heq]
      refine (inheritBy_eq_append hregular.fields _).trans (congrArg (_ ++ ·) ?_)
      exact List.filter_congr fun f _ => not_any_key FieldSpec.name _ f.name
    · rw [heq]
      refine (inheritBy_eq_append hregular.methods _).trans (congrArg (_ ++ ·) ?_)
      exact List.filter_congr fun f _ => not_any_key MethodSpec.signature _ f.signature
  case registered => rw [hnamed]

/-- A declaration fails and changes nothing, or its definition is registered. -/
theorem eval_box_cases (hm : m.Shaped) (fuel : Nat) (declaration : BoxDecl) :
    (∃ e, eval (fuel + 1) (.box declaration) m = ⟨.error e, m⟩) ∨
      ∃ whole m', eval (fuel + 1) (.box declaration) m = ⟨.ok .void, m'⟩ ∧
        Declares m declaration whole m' := by
  rcases registerBox_cases (.ofDecl declaration) m with ⟨e, h⟩ | ⟨whole, accepted, h⟩
  · exact .inl ⟨e, Exec.bind_error h⟩
  · exact .inr ⟨whole, _, Exec.bind_ok h, accepted.declares hm⟩

/-- A const definition is there after every run. -/
theorem Later.const (hm : Idle m) {name : String} {d : BoxDef} (hentry : m.boxes.get? name = some d)
    (hconst : d.isConst = true) (hname : ∀ k, name ≠ chainName k) {t : Machine} (h : Later m t) :
    t.boxes.get? name = some d := by
  have L := Registry.const_laws hconst hname
  induction h with
  | now => exact hentry
  | recover _ ih => exact ih
  | @run t t' fuel source ending before hrun _ ih =>
    have huse : t.registry.InUse := (Reachable.shaped (.idle (before.idle hm))).boxes
    rcases Machine.runWith_cases hrun with ⟨-, rfl⟩ | ⟨program, -, rfl⟩
    · exact ih
    · exact L.program huse ih fuel program ih

end Order

/-- **Definitions are in order on every machine that a session can get to.** -/
theorem definitions_in_order {m : Machine} (h : Reachable m) : DefinitionsInOrder m := by
  have huse : m.registry.InUse := h.shaped.boxes
  have hrecorded := h.recorded
  constructor
  case named => exact fun hentry => (hrecorded _ _ _ hentry).named
  case regular =>
    intro table name d hentry
    have hregular := h.shaped.definitions table name d hentry
    exact ⟨hregular.fields, hregular.methods⟩
  case concrete =>
    intro table name d f hentry hf habstract
    by_contra hconcrete
    have hf' := (hrecorded _ _ _ hentry).concrete (Bool.eq_false_iff.2 hconcrete) f hf
    rw [hf'] at habstract
    cases habstract
  -- the nearest definition of the line that declares something decides what is inherited
  case nearest =>
    intro table name d hentry
    obtain ⟨line, hline⟩ := (hrecorded _ _ _ hentry).lineage
    exact ⟨line, hline, hline.nearest_field, hline.nearest_method⟩
  case declared => exact fun fuel declaration => eval_box_cases h.shaped fuel declaration
  case const =>
    intro name d hentry hconst hname fuel node
    have L := Registry.const_laws hconst hname
    have hscope := throughout_true fuel (· node) m
    exact ⟨L.eval huse hentry hscope hentry, L.throughout huse hentry hscope⟩
  case permanent =>
    intro name d hentry hconst hname hidle t hlater
    exact hlater.const hidle hentry hconst hname

/-- A const definition with the definition of the cell for its base has the members of both, and
there is nothing that takes it away. -/
theorem definitions_in_order_cell :
    ∃ whole m', eval 2 (.box ⟨"d", some "anonymous_0", false, true, [⟨"y", .int 1, .exposed⟩], []⟩)
        OneCell.machine = ⟨.ok .void, m'⟩ ∧ m'.boxes.get? "d" = some whole ∧
      whole.fields.map (·.name) = ["y", "x"] ∧ whole.isConst = true := by
  let declaration : BoxDecl :=
    ⟨"d", some "anonymous_0", false, true, [⟨"y", .int 1, .exposed⟩], []⟩
  have hvalue : (eval 2 (.box declaration) OneCell.machine).result = .ok .void := by cbv
  rcases (definitions_in_order OneCell.reachable).declared 1 declaration with
    ⟨e, hfails⟩ | ⟨whole, m', hends, hdeclares⟩
  · rw [hfails] at hvalue
    cases hvalue
  obtain ⟨base, hbase, hfields, -⟩ := hdeclares.derived rfl
  refine ⟨whole, m', hends, ?_, ?_, hdeclares.isConst⟩
  · rw [hdeclares.registered]
    have huse : OneCell.machine.registry.InUse := OneCell.reachable.shaped.boxes
    exact (Registry.get?_modify huse _ 0).trans (Dict.get?_insert_self _ _ _)
  · have hcell : (OneCell.machine.boxes.get? "anonymous_0").map (·.fields.map (·.name))
        = some ["x"] := by cbv
    rw [hbase] at hcell
    obtain ⟨f, hbasefields, hname⟩ := List.map_eq_singleton_iff.1 (Option.some.inj hcell)
    rw [hfields, hbasefields, List.filter_cons_of_pos (by rw [hname]; decide), List.map_append]
    exact congrArg (["y"] ++ [·]) hname

end BoxScript
