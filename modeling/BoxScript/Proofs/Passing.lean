import BoxScript.Proofs.Course

/-!
# Machines that a run passes

The rules of a contract compare the machines before and after a computation. They say nothing about
what lies between, such as an instance that is created half way and then lasts to the end. So here
every computation is taken apart into the single changes that it makes to definitions and instances
(`Step`); what is on the machine besides may change in any step.

A contract `Abides` if every single step keeps its invariant and its relation. Then the relation
also holds from any machine that a run passes to the one on which it ends, be it a machine on which
the evaluation of a node begins (`Abides.getsTo`) or one on which it ends (`Abides.evaluates`). So
what no step takes back lasts from wherever it comes about.
-/

namespace BoxScript

/-- A single change of the machine, as far as definitions and instances are concerned. -/
inductive Step : Machine → Machine → Prop
  /-- Something else is changed. -/
  | other {m m' : Machine} (hboxes : m'.heap.boxes = m.heap.boxes)
    (hinstances : m'.heap.instances = m.heap.instances) : Step m m'
  | register {m : Machine} {declaration : BoxDecl} {whole : BoxDef}
    (accepted : m.Accepts (.ofDecl declaration) whole) :
    Step m (m.updateBoxesAt m.context.boxes (·.insert whole.name whole))
  | link (m : Machine) (h : Handle) : Step m (m.linked h)
  | drop (m : Machine) (table : Handle) (name : String) : Step m (dropBox table name m)
  | fork (m : Machine) : Step m m.forked
  | merge (m sub : Machine) : Step sub (m.merged sub)
  | setField (m : Machine) (h : Handle) (field : String) (v : Value) :
    Step m (m.updateInstance h (·.setField field v))
  | setLevel (m : Machine) (h : Handle) (signature : Signature) (level : Nat) :
    Step m (m.updateInstance h (·.setLevel signature level))
  | mapFields (m : Machine) (h : Handle) (f : String → Value → Value) :
    Step m (m.updateInstance h (·.mapFields f))

/-- In the course of a computation a node is evaluated on the machine `place`, with that much fuel
left: the outcome depends on what such an evaluation gives. -/
def Evaluates {α : Type} (fuel : Nat) (x : Evaluator → Exec α) (m : Machine) (node : Node)
    (place : Machine) (left : Nat) : Prop :=
  ∃ other : Nat → Evaluator, (∀ k, k ≠ left → other k = eval k) ∧
    x (evalOr (fun n t => ¬(n = node ∧ t = place)) other fuel) m ≠ x (eval fuel) m

/-- What an import makes of the run of its script. -/
def Machine.imported (m : Machine) : Outcome Unit → Outcome Unit
  | ⟨.ok _, sub⟩ => ⟨.ok (), m.merged sub⟩
  | ⟨.error e, sub⟩ => ⟨.error (.importFailed e.message), m.discarded sub m.chained⟩
  | ⟨.unfinished, sub⟩ => ⟨.unfinished, m.discarded sub sub.chained⟩

namespace Contract

/-- Every single step keeps the contract. -/
structure Abides (C : Contract) : Prop extends Lawful C where
  step : ∀ {m m'}, Step m m' → C.inv m → C.Allows m m'
  /-- The definition of a new instance is looked up before its fields are evaluated. -/
  create : ∀ {m m' name} {d : BoxDef} {fields : List Slot}, C.inv m →
    m.boxes.get? name = some d → d.isAbstract = false → FieldSlots fields d.fields →
    C.Allows m m' → C.Allows m' (allocate d fields m').machine

variable {C : Contract} {m m' there : Machine} {α β : Type}

/-- The first outcome is the same as the second one, unless a computation that ends as the second
one does has passed `there`. -/
structure Follows (C : Contract) (there m : Machine) (o o' : Outcome α) : Prop
    extends C.Allows m o'.machine where
  same : o = o' ∨ C.Allows m there ∧ C.rel there o'.machine

/-- The two computations do the same, unless the second one passes `there`. -/
def Leads (C : Contract) (there : Machine) (x y : Exec α) : Prop :=
  ∀ m, C.inv m → C.Follows there m (x m) (y m)

namespace Abides

variable (A : C.Abides)

include A

theorem allows_refl (hm : C.inv m) : C.Allows m m := ⟨hm, A.refl hm⟩

theorem allows_trans {a b c : Machine} (h : C.Allows a b) (h' : C.Allows b c) : C.Allows a c :=
  ⟨h'.inv, A.trans h.rel h'.rel⟩

/-- A change of something else than definitions and instances. -/
theorem other (hboxes : m'.heap.boxes = m.heap.boxes)
    (hinstances : m'.heap.instances = m.heap.instances) (hm : C.inv m) : C.Allows m m' :=
  A.step (.other hboxes hinstances) hm

/-- One step more. -/
theorem next {a b c : Machine} (h : C.Allows a b) (hstep : Step b c) : C.Allows a c :=
  A.allows_trans h (A.step hstep h.inv)

/-! ## Computations in a row -/

/-- What changes nothing leads nowhere. -/
theorem leads_unchanged {x : Exec α} (h : ∀ m, (x m).machine = m) : C.Leads there x x := by
  intro m hm
  refine ⟨?_, .inl rfl⟩
  rw [h m]
  exact A.allows_refl hm

theorem leads_pure (v : α) : C.Leads there (pure v) (pure v) := A.leads_unchanged fun _ => rfl

theorem leads_fail (e : RuntimeError) : C.Leads there (Exec.fail e : Exec α) (Exec.fail e) :=
  A.leads_unchanged fun _ => rfl

theorem leads_ofExcept (x : Except RuntimeError α) :
    C.Leads there (Exec.ofExcept x) (Exec.ofExcept x) :=
  A.leads_unchanged fun _ => by cases x <;> rfl

omit A in
/-- A step that the contract allows leads to where it ends. -/
theorem leads_step {f : Machine → Machine} (h : ∀ m, C.inv m → C.Allows m (f m)) :
    C.Leads there (Exec.update f) (Exec.update f) := fun m hm => ⟨h m hm, .inl rfl⟩

/-- A change of something else than definitions and instances. -/
theorem leads_other (f : Machine → Machine) (hboxes : ∀ m, (f m).heap.boxes = m.heap.boxes)
    (hinstances : ∀ m, (f m).heap.instances = m.heap.instances) :
    C.Leads there (Exec.update f) (Exec.update f) :=
  leads_step fun m => A.other (hboxes m) (hinstances m)

/-- The way to where a computation starts comes before it. -/
theorem before {a b : Machine} {o o' : Outcome α} (h : C.Follows there b o o')
    (hbefore : C.Allows a b) : C.Follows there a o o' :=
  ⟨A.allows_trans hbefore h.toAllows,
    h.same.imp_right fun hthere => ⟨A.allows_trans hbefore hthere.1, hthere.2⟩⟩

/-- What follows a computation leads from where that has ended. -/
theorem bind_follows {x y : Exec α} {f g : α → Exec β} (h : C.Follows there m (x m) (y m))
    (hf : ∀ v m', y m = ⟨.ok v, m'⟩ → C.Allows m m' → C.Follows there m' (f v m') (g v m')) :
    C.Follows there m ((x >>= f) m) ((y >>= g) m) := by
  obtain ⟨allows, same⟩ := h
  rw [Exec.bind_apply, Exec.bind_apply]
  rcases hy : y m with ⟨v | e | _, m'⟩ <;> rw [hy] at allows same
  · have hrest := hf v m' hy allows
    rcases same with same | ⟨hto, hfrom⟩
    · rw [same]
      exact A.before hrest allows
    · exact ⟨A.allows_trans allows hrest.toAllows, .inr ⟨hto, A.trans hfrom hrest.rel⟩⟩
  all_goals
    refine ⟨allows, same.imp_left fun same => ?_⟩
    rw [same]

/-- Two computations in a row lead to what either of them leads to. -/
theorem bind {x y : Exec α} {f g : α → Exec β} (h : C.Leads there x y)
    (hf : ∀ v, C.Leads there (f v) (g v)) : C.Leads there (x >>= f) (y >>= g) :=
  fun m hm => A.bind_follows (h m hm) fun v m' _ allows => hf v m' allows.inv

omit A in
theorem leads_look_bind {f : Machine → α} {g g' : α → Exec β}
    (h : ∀ m, C.inv m → C.Follows there m (g (f m) m) (g' (f m) m)) :
    C.Leads there (Exec.look f >>= g) (Exec.look f >>= g') := h

/-- What is made of both outcomes in the same way comes after them. -/
theorem after {o o' : Outcome α} {f : Outcome α → Outcome β} (h : C.Follows there m o o')
    (hf : ∀ o, C.inv o.machine → C.Allows o.machine (f o).machine) :
    C.Follows there m (f o) (f o') := by
  have hlast := hf o' h.inv
  refine ⟨A.allows_trans h.toAllows hlast, ?_⟩
  rcases h.same with same | ⟨hto, hfrom⟩
  · exact .inl (congrArg f same)
  · exact .inr ⟨hto, A.trans hfrom hlast.rel⟩

/-- A computation with a way in and a way out. -/
theorem closing {x y : Exec α} (h : C.Leads there x y) (leave : Machine → Machine)
    {entered : Machine} (henter : C.Allows m entered)
    (hleave : ∀ left, C.inv left → C.Allows left (leave left)) :
    C.Follows there m (Exec.closing x leave entered) (Exec.closing y leave entered) :=
  A.after (f := fun o => ⟨o.result, leave o.machine⟩)
    (A.before (h entered henter.inv) henter) fun o => hleave o.machine

/-! ## Ways in and out -/

theorem enterMethod (h : Handle) (signature : Signature) (locals : Locals) (active : Nat)
    (hm : C.inv m) : C.Allows m (enterMethod h signature locals active m) :=
  A.next (A.step (.setLevel m h signature active) hm) (.other rfl rfl)

theorem leaveMethod (h : Handle) (signature : Signature) (locals : Locals) (caller : Context)
    (closed level : Nat) (hm : C.inv m) :
    C.Allows m (leaveMethod h signature locals caller closed level m) := by
  let closedOff := m.updateScopesAt locals.scopes (·.close closed)
  let released := closedOff.updateInstance h (·.setLevel signature level)
  have hclosed : C.Allows m closedOff := A.other rfl rfl hm
  have hreleased : C.Allows m released := A.next hclosed (.setLevel _ h signature level)
  have hback : C.Allows m { released with context := caller } := A.next hreleased (.other rfl rfl)
  exact A.next hback (.mapFields _ h _)

/-- Opening and closing a scope are no such steps. -/
theorem inBlock {x y : Exec α} (h : C.Leads there x y) :
    C.Leads there (Exec.inBlock x) (Exec.inBlock y) := fun m hm =>
  have henter : C.Allows m (m.atLevel (m.context.level + 1)) := A.other rfl rfl hm
  A.closing h (·.closeTo m.context.level) henter fun _ => A.other rfl rfl

theorem asClause {x y : Exec α} (h : C.Leads there x y) :
    C.Leads there (Exec.asClause x) (Exec.asClause y) := fun m hm =>
  have henter : C.Allows m (m.withClause true) := A.other rfl rfl hm
  A.closing h (·.withClause m.context.inClause) henter fun _ => A.other rfl rfl

theorem asCall {x y : Exec α} (h : C.Leads there x y) :
    C.Leads there (Exec.asCall x) (Exec.asCall y) := by
  intro m hm
  unfold Exec.asCall
  split
  · exact ⟨A.allows_refl hm, .inl rfl⟩
  · rw [Exec.deepening_eq, Exec.deepening_eq]
    exact A.closing h _ (A.other rfl rfl hm) fun _ => A.other rfl rfl

theorem asFunction {x y : Exec Value} (h : C.Leads there x y) :
    C.Leads there (Exec.asFunction x) (Exec.asFunction y) :=
  A.asCall fun m hm =>
    have henter : C.Allows m ((m.atLevel (m.context.level + 1)).withClause false) :=
      A.other rfl rfl hm
    A.closing h (fun m' => (m'.closeTo m.context.level).withClause m.context.inClause) henter
      fun _ => A.other rfl rfl

theorem asMethod {x y : Exec Value} (h : C.Leads there x y) (o : Handle)
    (signature : Signature) :
    C.Leads there (Exec.asMethod o signature x) (Exec.asMethod o signature y) := by
  refine A.asCall fun m hm => ?_
  rcases (m.instanceAt o).method? signature with _ | ⟨routine, access, locals⟩
  · exact ⟨A.allows_refl hm, .inl rfl⟩
  · exact A.closing h _ (A.enterMethod o signature locals _ hm) fun _ =>
      A.leaveMethod o signature locals m.context _ locals.level

/-! ## Lists of nodes -/

section Evaluators

variable {ev ev' : Evaluator} (hev : ∀ node, C.Leads there (ev node) (ev' node))

include hev

theorem leads_evalArgs (args : List Node) :
    C.Leads there (evalArgs ev args) (evalArgs ev' args) := by
  have key : ∀ done, C.Leads there (evalArgsFrom ev done args : Exec (List Value))
      (evalArgsFrom ev' done args) := by
    induction args with
    | nil => exact fun done => A.leads_pure done.reverse
    | cons arg args ih =>
      intro done
      rw [evalArgsFrom_cons, evalArgsFrom_cons]
      exact A.bind (hev arg) fun v => ih (v :: done)
  exact key []

theorem leads_runBlock (nodes : List Node) :
    C.Leads there (runBlock ev nodes : Exec Bool) (runBlock ev' nodes) := by
  induction nodes with
  | nil => exact A.leads_pure false
  | cons node nodes ih =>
    rw [runBlock_cons, runBlock_cons]
    refine A.bind (hev node) fun _ => leads_look_bind fun m hm => ?_
    cases m.pending with
    | true => exact A.leads_pure true m hm
    | false => exact ih m hm

theorem leads_runProgram (program : Program) :
    C.Leads there (runProgram ev program : Exec Unit) (runProgram ev' program) := by
  induction program with
  | nil => exact A.leads_pure ()
  | cons node nodes ih =>
    rw [Tracked.runProgram_cons, Tracked.runProgram_cons]
    refine A.bind (hev node) fun _ => leads_look_bind fun m hm => ?_
    cases m.pending with
    | true =>
      have hnoted : m.noteSignal.dropSignal.heap.boxes = m.heap.boxes ∧
          m.noteSignal.dropSignal.heap.instances = m.heap.instances := by
        unfold Machine.noteSignal
        split <;> exact ⟨rfl, rfl⟩
      exact ⟨A.other hnoted.1 hnoted.2 hm, .inl rfl⟩
    | false => exact ih m hm

/-! ## Branches, loops and calls -/

theorem leads_holds (condition : Node) :
    C.Leads there (holds ev condition) (holds ev' condition) :=
  A.bind (hev condition) fun v => A.bind (A.leads_ofExcept v.asInt) fun _ => A.leads_pure _

omit hev in
theorem leads_repeatWhile {test test' body body' : Exec Bool} {step step' : Exec Unit}
    (htest : C.Leads there test test') (hbody : C.Leads there body body')
    (hstep : C.Leads there step step') (fuel : Nat) :
    C.Leads there (repeatWhile test body step fuel : Exec Unit)
      (repeatWhile test' body' step' fuel) := by
  induction fuel with
  | zero => exact A.leads_unchanged fun _ => rfl
  | succ fuel ih =>
    rw [repeatWhile_succ, repeatWhile_succ]
    refine A.bind htest fun goesOn => ?_
    cases goesOn with
    | false => exact A.leads_pure ()
    | true =>
      refine A.bind hbody fun stops => ?_
      cases stops with
      | true => exact A.leads_pure ()
      | false => exact A.bind hstep fun _ => ih

theorem leads_blockBody (fuel : Nat) (node : Node) :
    C.Leads there (blockBody ev fuel node) (blockBody ev' fuel node) := by
  have hblock : ∀ nodes, C.Leads there (runBlock ev nodes : Exec Bool) (runBlock ev' nodes) :=
    A.leads_runBlock hev
  have hclause : ∀ clause, C.Leads there (Exec.asClause (ev clause >>= fun _ => pure ()))
      (Exec.asClause (ev' clause >>= fun _ => pure ())) :=
    fun clause => A.asClause (A.bind (hev clause) fun _ => A.leads_pure ())
  cases node with
  | ifElse condition yes no =>
    refine A.bind (A.leads_holds hev condition) fun holds => ?_
    cases holds with
    | true => exact A.bind (hblock yes) fun _ => A.leads_pure ()
    | false =>
      cases no with
      | none => exact A.leads_pure ()
      | some no => exact A.bind (hblock no) fun _ => A.leads_pure ()
  | whileDo condition body =>
    exact A.leads_repeatWhile (A.leads_holds hev condition) (hblock body) (A.leads_pure ()) fuel
  | forDo init condition increment body =>
    exact A.bind (hclause init) fun _ => A.leads_repeatWhile (A.leads_holds hev condition)
      (hblock body) (hclause increment) fuel
  | _ => exact A.leads_pure ()

theorem leads_runBody (routine : Routine) (args : List Value) :
    C.Leads there (runBody ev routine args) (runBody ev' routine args) := by
  unfold runBody
  by_cases hcount : args.length ≠ routine.params.length
  · simp only [if_pos hcount]
    exact A.leads_fail _
  · simp only [if_neg hcount]
    have hbound : C.Leads there _ _ := A.leads_other
      (fun m => m.updateScopes (bindParams m.context.level routine.params args)) (fun _ => rfl)
      fun _ => rfl
    refine A.bind hbound fun _ => A.bind (A.leads_runBlock hev routine.body) fun returned => ?_
    cases returned with
    | true =>
      have hdropped : C.Leads there _ _ :=
        A.leads_other Machine.dropSignal (fun _ => rfl) fun _ => rfl
      exact leads_look_bind fun m => A.bind hdropped (fun _ => A.leads_pure m.signal) m
    | false => exact A.leads_fail _

theorem leads_invoke (routine : Routine) (args : List Value) :
    C.Leads there (invoke ev routine args) (invoke ev' routine args) :=
  A.asFunction (A.leads_runBody hev routine args)

theorem leads_callFunction (name : String) (args : List Node) :
    C.Leads there (callFunction ev name args) (callFunction ev' name args) := by
  refine leads_look_bind fun m hm => ?_
  cases m.functions.get? ⟨name, args.length⟩ with
  | none => exact A.leads_fail _ m hm
  | some routine =>
    exact A.bind (A.leads_evalArgs hev args) (fun args => A.leads_invoke hev routine args) m hm

/-! ## Definitions and instances -/

omit hev in
theorem leads_registerBox (declaration : BoxDecl) :
    C.Leads there (registerBox (.ofDecl declaration)) (registerBox (.ofDecl declaration)) := by
  intro m hm
  refine ⟨?_, .inl rfl⟩
  rcases registerBox_cases (.ofDecl declaration) m with ⟨e, h⟩ | ⟨whole, accepted, h⟩ <;> rw [h]
  · exact A.allows_refl hm
  · exact A.step (.register accepted) hm

omit hev in
theorem leads_boxNamed_bind (name : String) {f g : BoxDef → Exec α}
    (h : ∀ m d, C.inv m → m.boxes.get? name = some d → C.Follows there m (f d m) (g d m)) :
    C.Leads there (boxNamed name >>= f) (boxNamed name >>= g) := by
  unfold boxNamed
  rw [bind_assoc, bind_assoc]
  refine leads_look_bind fun m hm => ?_
  cases hknown : m.boxes.get? name with
  | none => exact A.leads_fail (.boxNotFound name) m hm
  | some d => exact h m d hm hknown

/-- The fields are evaluated in their order before what follows. -/
theorem follows_makeFields_bind {f g : List Slot → Exec α} {done todo : List FieldSpec}
    {made : List Slot} (hm : C.inv m) (hmade : FieldSlots made.reverse done)
    (h : ∀ fields m', FieldSlots fields (done ++ todo) → C.Allows m m' →
      C.Follows there m' (f fields m') (g fields m')) :
    C.Follows there m ((makeFieldsFrom ev made todo >>= f) m)
      ((makeFieldsFrom ev' made todo >>= g) m) := by
  induction todo generalizing done made m with
  | nil =>
    rw [List.append_nil] at h
    exact h made.reverse m hmade (A.allows_refl hm)
  | cons s rest ih =>
    have hnext : ∀ v m', C.Allows m m' → C.Follows there m'
        ((makeFieldsFrom ev (.field s.name v s.access :: made) rest >>= f) m')
        ((makeFieldsFrom ev' (.field s.name v s.access :: made) rest >>= g) m') := by
      intro v m' hbefore
      have hmade' : FieldSlots (.field s.name v s.access :: made).reverse (done ++ [s]) := by
        rw [List.reverse_cons]
        exact List.rel_append hmade (.cons ⟨v, rfl⟩ .nil)
      refine ih hbefore.inv hmade' fun fields m'' hfields allows =>
        h fields m'' ?_ (A.allows_trans hbefore allows)
      rwa [List.append_assoc] at hfields
    rw [makeFieldsFrom, makeFieldsFrom]
    cases s.init with
    | expr node =>
      simp only [bind_assoc]
      exact A.bind_follows (hev node m hm) fun v m' _ allows => hnext v m' allows
    | fixed value =>
      simp only [pure_bind]
      exact hnext value m (A.allows_refl hm)

/-- Making an instance comes after its fields, with the definition that was found before them. -/
theorem leads_instantiate (name : String) :
    C.Leads there (instantiate ev name) (instantiate ev' name) := by
  refine A.leads_boxNamed_bind name fun m d hm hknown => ?_
  cases hconcrete : d.isAbstract with
  | true => exact A.leads_fail (.abstractInstance name) m hm
  | false =>
    have hnone : FieldSlots [].reverse [] := .nil
    refine A.follows_makeFields_bind hev hm hnone fun fields m' hfields between => ?_
    exact ⟨A.create hm hknown hconcrete hfields between, .inl rfl⟩

omit hev in
theorem leads_lookupVariable (name : String) :
    C.Leads there (lookupVariable name) (lookupVariable name) :=
  A.leads_unchanged fun m => by
    unfold lookupVariable
    cases m.scopes.get name m.context.level <;> rfl

omit hev in
theorem leads_instanceIn (holder : String) :
    C.Leads there (instanceIn holder) (instanceIn holder) :=
  A.bind (A.leads_lookupVariable holder) fun v => A.leads_ofExcept v.asObject

omit hev in
theorem leads_readField (holder field : String) :
    C.Leads there (readField holder field) (readField holder field) := by
  refine A.bind (A.leads_instanceIn holder) fun o => leads_look_bind fun m hm => ?_
  rcases (m.instanceAt o).field? field with _ | ⟨value, access⟩
  · exact A.leads_fail _ m hm
  · cases access with
    | exposed => exact A.leads_pure value m hm
    | guarded => exact A.leads_fail _ m hm

theorem leads_writeField (holder field : String) (value : Node) :
    C.Leads there (writeField ev holder field value) (writeField ev' holder field value) := by
  refine A.bind (A.leads_instanceIn holder) fun o => leads_look_bind fun m hm => ?_
  rcases (m.instanceAt o).field? field with _ | ⟨_, access⟩
  · exact A.leads_fail _ m hm
  · cases access with
    | exposed =>
      exact A.bind (hev value)
        (fun v => leads_step fun m => A.step (.setField m o field v)) m hm
    | guarded => exact A.leads_fail _ m hm

/-! ## Methods -/

theorem leads_callMethod (o : Handle) (call : Invocation) :
    C.Leads there (callMethod ev o call) (callMethod ev' o call) := by
  refine leads_look_bind fun m hm => ?_
  rcases (m.instanceAt o).method? ⟨call.name, call.args.length⟩ with _ | ⟨routine, access, locals⟩
  · exact A.leads_fail _ m hm
  · cases access with
    | guarded => exact A.leads_fail _ m hm
    | exposed =>
      exact A.bind (A.leads_evalArgs hev call.args)
        (fun args => A.asMethod (A.leads_runBody hev routine args) o routine.signature) m hm

/-- A row leads to what its calls lead to, and registers a definition for each further one. -/
theorem leads_chainFrom (table : Handle) (previous : Value) (calls : List Invocation) :
    C.Leads there (chainFrom ev table previous calls) (chainFrom ev' table previous calls) := by
  induction calls generalizing previous with
  | nil => cases previous <;> exact A.leads_pure _
  | cons call calls ih =>
    cases previous with
    | object o =>
      intro m hm
      rcases chainFrom_cases table o call calls m with ⟨e, h⟩ | h
      · rw [h ev, h ev']
        have hcounted : C.Allows m { m with chained := m.chained + 1 } := A.other rfl rfl hm
        exact ⟨A.next hcounted (.drop _ table _), .inl rfl⟩
      · rw [h ev, h ev']
        have hlink : C.Leads there (linkFrom ev table (chainName m.chained) call calls)
            (linkFrom ev' table (chainName m.chained) call calls) :=
          A.bind (A.leads_instantiate hev _) fun copy =>
            A.bind (A.leads_callMethod hev copy call) fun v => ih v
        exact A.closing hlink _ (A.step (.link m o) hm) fun _ => A.step (.drop _ table _)
    | int | str | array | void => exact A.leads_fail _

theorem leads_callChain (receiver : Receiver) (first : Invocation) (further : List Invocation) :
    C.Leads there (callChain ev receiver first further) (callChain ev' receiver first further) := by
  refine leads_look_bind fun m hm => ?_
  have hreceiver :
      C.Leads there (receiverInstance ev receiver) (receiverInstance ev' receiver) := by
    cases receiver with
    | named holder => exact A.leads_instanceIn holder
    | created box => exact A.leads_instantiate hev box
  exact A.bind hreceiver (fun o => A.bind (A.leads_callMethod hev o first) fun v =>
    A.leads_chainFrom hev _ v further) m hm

/-! ## Extensions -/

omit hev in
/-- What an instance answers for itself changes one field at most. -/
theorem leads_ofInstance (name : String) (o : Handle) (args : List Value) :
    C.Leads there (ofInstance name o args) (ofInstance name o args) := by
  have hkept : ∀ {γ : Type} (x : Except RuntimeError γ) {f : γ → Exec (Option Value)},
      (∀ v, C.Leads there (f v) (f v)) →
      C.Leads there (Exec.ofExcept x >>= f) (Exec.ofExcept x >>= f) :=
    fun x _ hf => A.bind (A.leads_ofExcept x) hf
  have hlooked : ∀ (f : Instance → Value), C.Leads there
      (Exec.look (·.instanceAt o) >>= fun i => pure (some (f i)))
      (Exec.look (·.instanceAt o) >>= fun i => pure (some (f i))) :=
    fun f => leads_look_bind fun m => A.leads_pure _ m
  unfold ofInstance
  split
  · exact hkept _ fun box => A.leads_boxNamed_bind box fun m d hm _ => hlooked _ m hm
  · exact A.leads_fail _
  · exact hkept _ fun _ => hkept _ fun _ => hkept _ fun _ => hlooked _
  · exact A.leads_fail _
  · exact hkept _ fun _ => hkept _ fun _ => hkept _ fun _ => hkept _ fun _ => hlooked _
  · exact A.leads_fail _
  -- only the setting of a field is a step; all other answers are read off
  · refine hkept _ fun field => leads_look_bind fun m hm => ?_
    split
    · exact ⟨A.allows_refl hm, .inl rfl⟩
    · exact A.bind (leads_step fun m => A.step (.setField m o field _))
        (fun _ => A.leads_pure _) m hm
  · exact A.leads_fail _
  · exact A.leads_pure none

omit hev in
theorem leads_callBuiltin (name : String) (receiver : Value) (args : List Value) :
    C.Leads there (callBuiltin name receiver args) (callBuiltin name receiver args) := by
  rw [callBuiltin_eq]
  refine A.bind ?_ fun answer => ?_
  · cases receiver with
    | array items => exact leads_look_bind fun m => A.leads_ofExcept _ m
    | str | int => exact A.leads_ofExcept _
    | object o => exact A.leads_ofInstance name o args
    | void => exact A.leads_pure none
  · cases answer with
    | none => exact A.leads_fail _
    | some v => exact A.leads_pure v

theorem leads_callExtension (target : Node) (name : String) (args : List Node) :
    C.Leads there (callExtension ev target name args) (callExtension ev' target name args) := by
  refine A.bind (hev target) fun receiver => ?_
  cases receiver.isVoid with
  | true => exact A.leads_pure _
  | false =>
    simp only [Bool.false_eq_true, if_false]
    split
    · exact A.leads_pure _
    · refine leads_look_bind fun m hm => ?_
      cases declaredFor? (Text.toLower name) receiver args.length m with
      | none =>
        exact A.bind (A.leads_evalArgs hev args) (fun args => A.leads_callBuiltin _ receiver args)
          m hm
      | some e =>
        exact A.bind (A.leads_evalArgs hev args) (fun args => A.leads_invoke hev e.routine _) m hm

theorem leads_declareExtension (kind box function arity : Node) :
    C.Leads there (declareExtension ev kind box function arity)
      (declareExtension ev' kind box function arity) := by
  refine A.bind (hev kind) fun kind => A.bind (hev box) fun box => ?_
  refine A.bind (hev function) fun function => A.bind (hev arity) fun arity => ?_
  split
  · next kindName box function arity =>
    dsimp only
    by_cases hreceiver : arity < 1
    · rw [if_pos hreceiver]
      exact A.leads_fail _
    · rw [if_neg hreceiver]
      cases Kind.ofName? kindName with
      | none => exact A.leads_fail _
      | some kind =>
        refine A.leads_boxNamed_bind box fun m d hm _ => ?_
        have hdeclared : ∀ routine, C.Leads there
            (Exec.update (·.updateExtensions (·.insert (Text.toLower function) ⟨kind, routine⟩)))
            (Exec.update (·.updateExtensions (·.insert (Text.toLower function) ⟨kind, routine⟩))) :=
          fun routine => A.leads_other _ (fun _ => rfl) fun _ => rfl
        exact A.bind (A.leads_ofExcept _) hdeclared m hm
  · exact A.leads_fail _

/-! ## Files and scripts -/

theorem leads_evalPath (path : Node) : C.Leads there (evalPath ev path) (evalPath ev' path) := by
  refine A.bind (hev path) fun v => ?_
  cases v with
  | str path => exact A.leads_pure path
  | int | array | object | void => exact A.leads_fail _

omit hev in
theorem leads_readFileText (path : String) :
    C.Leads there (readFileText path) (readFileText path) :=
  A.leads_unchanged fun m => by
    unfold readFileText
    cases m.files.readText path <;> rfl

theorem leads_importSource (source : String) :
    C.Leads there (importSource ev source) (importSource ev' source) := by
  intro m hm
  cases hparse : Program.ofSource source with
  | error e =>
    rw [importSource_of_error hparse, importSource_of_error hparse]
    exact ⟨A.allows_refl hm, .inl rfl⟩
  | ok program =>
    rw [importSource_of_ok hparse, importSource_of_ok hparse]
    have hforked := A.step (.fork m) hm
    have hrun := A.before (A.leads_runProgram hev program _ hforked.inv) hforked
    refine A.after (f := m.imported) hrun fun o hsub => ?_
    rcases o with ⟨_ | _ | _, sub⟩
    · exact A.step (.merge m sub) hsub
    · exact A.other rfl rfl hsub
    · exact A.other rfl rfl hsub

/-! ## All nodes -/

/-- The rule for every node keeps the contract, if the evaluator for the nodes below it does. -/
theorem leads_evalNode (fuel : Nat) (node : Node) :
    C.Leads there (evalNode ev fuel node) (evalNode ev' fuel node) := by
  have done : ∀ {γ : Type} {x y : Exec γ}, C.Leads there x y →
      C.Leads there (x >>= fun _ => pure Value.void) (y >>= fun _ => pure Value.void) :=
    fun hx => A.bind hx fun _ => A.leads_pure Value.void
  have changes : ∀ (f : Machine → Machine), (∀ m, (f m).heap.boxes = m.heap.boxes) →
      (∀ m, (f m).heap.instances = m.heap.instances) →
      C.Leads there (Exec.update f) (Exec.update f) := A.leads_other
  have hpush : ∀ v, C.Leads there (Exec.update (·.updateReturns (· ++ [v])))
      (Exec.update (·.updateReturns (· ++ [v]))) :=
    fun v => changes _ (fun _ => rfl) fun _ => rfl
  have hfile : ∀ (path : Node) (f : String → Value), C.Leads there
      (evalPath ev path >>= fun path => readFileText path >>= fun text => pure (f text))
      (evalPath ev' path >>= fun path => readFileText path >>= fun text => pure (f text)) :=
    fun path f => A.bind (A.leads_evalPath hev path) fun path =>
      A.bind (A.leads_readFileText path) fun text => A.leads_pure (f text)
  cases node with
  | int n => exact A.leads_pure _
  | str s => exact A.leads_pure _
  | var name => exact A.leads_lookupVariable name
  | assign name value =>
    exact A.bind (hev value) fun v => done (changes _ (fun _ => rfl) fun _ => rfl)
  | binary op left right =>
    exact A.bind (hev left) fun a => A.bind (hev right) fun b => A.leads_ofExcept _
  | negate operand => exact A.bind (hev operand) fun v => A.leads_ofExcept _
  | print value newline =>
    exact A.bind (hev value) fun v => done (changes _ (fun _ => rfl) fun _ => rfl)
  | function routine => exact done (changes _ (fun _ => rfl) fun _ => rfl)
  | call name args => exact A.leads_callFunction hev name args
  | ifElse | whileDo | forDo =>
    rw [evalNode_of_isBlock rfl, evalNode_of_isBlock rfl]
    exact done (A.inBlock (A.leads_blockBody hev fuel _))
  | giveBack value =>
    cases value with
    | none => exact done (hpush .void)
    | some value => exact A.bind (hev value) fun v => done (hpush v)
  | input =>
    intro m hm
    refine ⟨?_, .inl rfl⟩
    show C.Allows m (readInput m).machine
    unfold readInput
    rcases m.console.readValue with ⟨_ | _, console⟩ <;> exact A.other rfl rfl hm
  | array items => exact A.bind (A.leads_evalArgs hev items) fun _ => A.leads_pure _
  | index target position =>
    exact A.bind (hev target) fun a => A.bind (hev position) fun b => A.leads_ofExcept _
  | extension target name args => exact A.leads_callExtension hev target name args
  | box declaration => exact done (A.leads_registerBox declaration)
  | create box => exact A.bind (A.leads_instantiate hev box) fun _ => A.leads_pure _
  | field holder field => exact A.leads_readField holder field
  | setField holder field value => exact done (A.leads_writeField hev holder field value)
  | method receiver first further => exact A.leads_callChain hev receiver first further
  | raise message =>
    exact A.bind (hev message) fun v => leads_look_bind fun m => A.leads_fail _ m
  | importScript path =>
    exact A.bind (A.leads_evalPath hev path) fun path =>
      A.bind (A.leads_readFileText path) fun source => done (A.leads_importSource hev source)
  | readLines path => exact hfile path _
  | readText path => exact hfile path _
  | fileExists path =>
    exact A.bind (A.leads_evalPath hev path) fun path =>
      leads_look_bind fun m => A.leads_pure _ m
  | extend kind box function arity =>
    exact done (A.leads_declareExtension hev kind box function arity)

end Evaluators

/-! ## From any machine to the end -/

theorem leads_eval (fuel : Nat) (n : Node) :
    C.Leads there (BoxScript.eval fuel n) (BoxScript.eval fuel n) := by
  induction fuel generalizing n with
  | zero => exact A.leads_unchanged fun _ => rfl
  | succ fuel ih => exact A.leads_evalNode ih fuel n

/-- An evaluation keeps the contract. -/
theorem eval (fuel : Nat) (node : Node) (hm : C.inv m) :
    C.Allows m (BoxScript.eval fuel node m).machine := by
  have hleads : C.Leads m (BoxScript.eval fuel node) _ := A.leads_eval fuel node
  exact (hleads m hm).toAllows

/-- A run of a program keeps the contract. -/
theorem run (fuel : Nat) (program : Program) (hm : C.inv m) :
    C.Allows m (runProgram (BoxScript.eval fuel) program m).machine := by
  have hleads : ∀ n, C.Leads m (BoxScript.eval fuel n) _ := A.leads_eval fuel
  exact (A.leads_runProgram hleads program m hm).toAllows

/-- An evaluation and one with a detour, if `there` is passed wherever the detour matters. -/
theorem leads_evalOr {node : Node} {place : Machine} {other : Nat → Evaluator}
    (hpasses : C.inv place → ∀ k, other (k + 1) node place = BoxScript.eval (k + 1) node place ∨
      C.Allows place there ∧ C.rel there (BoxScript.eval (k + 1) node place).machine)
    (fuel : Nat) (n : Node) :
    C.Leads there (evalOr (fun n t => ¬(n = node ∧ t = place)) other fuel n)
      (BoxScript.eval fuel n) := by
  induction fuel generalizing n with
  | zero => exact A.leads_unchanged fun _ => rfl
  | succ fuel ih =>
    intro m hm
    by_cases hplace : n = node ∧ m = place
    · rw [evalOr_of_not (not_not_intro hplace)]
      obtain ⟨rfl, rfl⟩ := hplace
      exact ⟨A.eval (fuel + 1) n hm, hpasses hm fuel⟩
    · rw [evalOr_of_holds hplace]
      exact A.leads_evalNode ih fuel n m hm

/-- What holds between the machines before and after a step holds between any machine that a
computation gets to and the one on which it ends. -/
theorem getsTo {x : Evaluator → Exec α} {fuel : Nat} {node : Node} (hm : C.inv m)
    (hx : ∀ {ev ev' : Evaluator}, (∀ n, C.Leads there (ev n) (ev' n)) →
      C.Leads there (x ev) (x ev')) (hgets : GetsTo fuel x m node there) :
    C.Allows m there ∧ C.rel there (x (BoxScript.eval fuel) m).machine := by
  obtain ⟨other, hshows⟩ := not_forall.1 hgets
  refine (hx (A.leads_evalOr (fun hthere k => ?_) fuel) m hm).same.resolve_left hshows
  exact .inr ⟨A.allows_refl hthere, (A.eval (k + 1) node hthere).rel⟩

/-- The same of a machine on which an evaluation ends in the course of a computation. -/
theorem evaluates {x : Evaluator → Exec α} {fuel left : Nat} {node : Node} {place : Machine}
    (hm : C.inv m) (hx : ∀ {ev ev' : Evaluator}, (∀ n, C.Leads there (ev n) (ev' n)) →
      C.Leads there (x ev) (x ev'))
    (hevaluates : Evaluates fuel x m node place left)
    (hthere : (BoxScript.eval left node place).machine = there) :
    C.Allows m there ∧ C.rel there (x (BoxScript.eval fuel) m).machine := by
  obtain ⟨other, hsame, hshows⟩ := hevaluates
  refine (hx (A.leads_evalOr (fun hplace k => ?_) fuel) m hm).same.resolve_left hshows
  by_cases hleft : k + 1 = left
  · have hends := A.eval left node hplace
    rw [hleft]
    rw [hthere] at hends ⊢
    exact .inr ⟨hends, A.refl hends.inv⟩
  · rw [hsame _ hleft]
    exact .inl rfl

/-- Whether it reads the source text or not, a run keeps the contract. -/
theorem runWith {fuel : Nat} {source : String} {ending : Ending}
    (hrun : m.runWith fuel source = (ending, m')) (hm : C.inv m) : C.Allows m m' := by
  rcases Machine.runWith_cases hrun with ⟨-, rfl⟩ | ⟨program, -, rfl⟩
  · exact A.allows_refl hm
  · exact A.run fuel program hm

/-- So does going back to the global scope. -/
theorem recover (hm : C.inv m) : C.Allows m m.recover := A.other rfl rfl hm

/-- The fields of a new instance are those of its definition. -/
theorem makeFields {fuel : Nat} {done todo : List FieldSpec} {made fields : List Slot}
    (hm : C.inv m) (hmade : FieldSlots made.reverse done)
    (h : makeFieldsFrom (BoxScript.eval fuel) made todo m = ⟨.ok fields, m'⟩) :
    FieldSlots fields (done ++ todo) ∧ C.Allows m m' := by
  induction todo generalizing done made m with
  | nil =>
    cases h
    rw [List.append_nil]
    exact ⟨hmade, A.allows_refl hm⟩
  | cons s rest ih =>
    have hnext : ∀ {v m₁}, C.Allows m m₁ →
        makeFieldsFrom (BoxScript.eval fuel) (.field s.name v s.access :: made) rest m₁
          = ⟨.ok fields, m'⟩ → FieldSlots fields (done ++ s :: rest) ∧ C.Allows m m' := by
      intro v m₁ hbefore hrest
      have hmade' : FieldSlots (.field s.name v s.access :: made).reverse (done ++ [s]) := by
        rw [List.reverse_cons]
        exact List.rel_append hmade (.cons ⟨v, rfl⟩ .nil)
      obtain ⟨hfields, hafter⟩ := ih hbefore.inv hmade' hrest
      rw [List.append_assoc] at hfields
      exact ⟨hfields, A.allows_trans hbefore hafter⟩
    obtain ⟨name, init, access⟩ := s
    cases init with
    | expr node =>
      have hstep : makeFieldsFrom (BoxScript.eval fuel) made (⟨name, .expr node, access⟩ :: rest)
        = BoxScript.eval fuel node >>= fun v =>
          makeFieldsFrom (BoxScript.eval fuel) (.field name v access :: made) rest := rfl
      rw [hstep] at h
      obtain ⟨v, m₁, hv, hrest⟩ := Exec.ok_of_bind h
      have hbefore := A.eval fuel node hm
      rw [hv] at hbefore
      exact hnext hbefore hrest
    | fixed value => exact hnext (A.allows_refl hm) h

end Abides
end Contract
end BoxScript
