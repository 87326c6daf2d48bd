import BoxScript.Proofs.Likeness

/-!
# The evaluator on machines that are alike

A computation cannot tell two machines apart if on both it ends with the same result, on machines
that are alike again (`Renewal.Blind`). The rules of the evaluator are gone through once: each is
made of computations that cannot tell, puts them together in ways that cannot tell, and reads off
the machine only what is the same on both. So no evaluation can tell, with whatever fuel, and no run
of a program (`Renewal.blind_eval`, `Renewal.blind_runProgram`).
-/

namespace BoxScript
namespace Renewal

variable {ρ : Renewal} {waits : Prop} {α β : Type}

/-- The results are the same, and the machines are alike. -/
inductive Agree (ρ : Renewal) (waits : Prop) : Outcome α → Outcome α → Prop
  | of {result : Result α} {m m' : Machine} (h : ρ.Alike waits m m') :
    Agree ρ waits ⟨result, m⟩ ⟨result, m'⟩

/-- A computation that does the same on machines that are alike. -/
def Blind (ρ : Renewal) (x : Exec α) : Prop :=
  ∀ ⦃waits m m'⦄, ρ.Alike waits m m' → ρ.Agree waits (x m) (x m')

theorem Agree.mono {waits' : Prop} {o o' : Outcome α} (h : ρ.Agree waits o o')
    (hw : waits → waits') : ρ.Agree waits' o o' := by
  cases h with
  | of h => exact .of (h.mono hw)

/-! ## Putting computations together -/

theorem blind_pure (a : α) : ρ.Blind (pure a : Exec α) := fun _ _ _ h => .of h

theorem blind_fail (e : RuntimeError) : ρ.Blind (Exec.fail e : Exec α) := fun _ _ _ h => .of h

theorem blind_unfinished : ρ.Blind (Exec.unfinished : Exec α) := fun _ _ _ h => .of h

theorem blind_ofExcept (x : Except RuntimeError α) : ρ.Blind (Exec.ofExcept x) := by
  intro waits m m' h
  cases x <;> exact .of h

theorem Agree.bind {x : Exec α} {f : α → Exec β} {m m' : Machine} (h : ρ.Agree waits (x m) (x m'))
    (hf : ∀ a, ρ.Blind (f a)) : ρ.Agree waits ((x >>= f) m) ((x >>= f) m') := by
  rw [Exec.bind_apply, Exec.bind_apply]
  generalize x m = o at h
  generalize x m' = o' at h
  cases h with
  | @of result _ _ h =>
    cases result with
    | ok a => exact hf a h
    | error e => exact .of h
    | unfinished => exact .of h

theorem Blind.bind {x : Exec α} {f : α → Exec β} (hx : ρ.Blind x) (hf : ∀ a, ρ.Blind (f a)) :
    ρ.Blind (x >>= f) := fun _ _ _ h => (hx h).bind hf

/-- What follows a look at the machine does the same with what it sees there. -/
theorem blind_look_bind {f : Machine → α} {g : α → Exec β}
    (h : ∀ {waits m m'}, ρ.Alike waits m m' → ρ.Agree waits (g (f m) m) (g (f m') m')) :
    ρ.Blind (Exec.look f >>= g) := fun _ _ _ => h

/-- A look at something that is the same. -/
theorem blind_look_eq_bind {f : Machine → α} {g : α → Exec β}
    (hf : ∀ {waits m m'}, ρ.Alike waits m m' → f m' = f m) (hg : ∀ a, ρ.Blind (g a)) :
    ρ.Blind (Exec.look f >>= g) := by
  refine blind_look_bind fun {waits m m'} h => ?_
  rw [hf h]
  exact hg _ h

/-- A change that keeps machines alike does so unseen. -/
theorem blind_update {f : Machine → Machine}
    (hf : ∀ {waits m m'}, ρ.Alike waits m m' → ρ.Alike waits (f m) (f m')) :
    ρ.Blind (Exec.update f) := fun _ _ _ h => .of (hf h)

/-- A computation between two entries and exits that keep machines alike keeps them alike. -/
theorem Agree.closing {body : Exec α} {m m' : Machine} (h : ρ.Agree waits (body m) (body m'))
    {leave leave' : Machine → Machine}
    (hleave : ∀ {n n'}, ρ.Alike waits n n' → ρ.Alike waits (leave n) (leave' n')) :
    ρ.Agree waits (Exec.closing body leave m) (Exec.closing body leave' m') := by
  unfold Exec.closing
  generalize body m = o at h
  generalize body m' = o' at h
  cases h with
  | of h => exact .of (hleave h)

theorem Blind.inBlock {body : Exec α} (h : ρ.Blind body) : ρ.Blind (Exec.inBlock body) := by
  intro waits m m' hm
  unfold Exec.inBlock
  rw [hm.level]
  exact (h (hm.atLevel _)).closing fun hn => hn.closeTo _

theorem Blind.asClause {body : Exec α} (h : ρ.Blind body) : ρ.Blind (Exec.asClause body) := by
  intro waits m m' hm
  unfold Exec.asClause
  rw [hm.inClause]
  exact (h (hm.withClause true)).closing fun hn => hn.withClause _

theorem Blind.asCall {body : Exec α} (h : ρ.Blind body) : ρ.Blind (Exec.asCall body) := by
  intro waits m m' hm
  unfold Exec.asCall
  rw [hm.depth, Exec.deepening_eq]
  split
  · exact .of hm
  · refine (h (hm.withDepth _)).closing fun {n n'} hn => ?_
    rw [hn.depth]
    exact hn.withDepth _

/-! ## Lists of nodes -/

section Evaluator

variable {ev : Evaluator} (hev : ∀ node, ρ.Blind (ev node))

include hev

theorem blind_evalArgs (args : List Node) : ρ.Blind (evalArgs ev args) := by
  have key : ∀ done, ρ.Blind (evalArgsFrom ev done args : Exec (List Value)) := by
    induction args with
    | nil => exact fun done => blind_pure done.reverse
    | cons arg args ih =>
      intro done
      rw [Contract.evalArgsFrom_cons]
      exact (hev arg).bind fun v => ih (v :: done)
  exact key []

theorem blind_runBlock (nodes : List Node) : ρ.Blind (runBlock ev nodes : Exec Bool) := by
  induction nodes with
  | nil => exact blind_pure false
  | cons node nodes ih =>
    rw [Contract.runBlock_cons]
    refine (hev node).bind fun _ => blind_look_eq_bind Alike.pending fun stops => ?_
    cases stops with
    | true => exact blind_pure true
    | false => exact ih

/-- **No run of a program can tell.** -/
theorem blind_runProgram (program : Program) : ρ.Blind (runProgram ev program : Exec Unit) := by
  induction program with
  | nil => exact blind_pure ()
  | cons node nodes ih =>
    rw [Tracked.runProgram_cons]
    refine (hev node).bind fun _ => blind_look_eq_bind Alike.pending fun stops => ?_
    cases stops with
    | true => exact blind_update fun h => h.noteSignal.dropSignal
    | false => exact ih

/-! ## Branches, loops and calls -/

theorem blind_holds (condition : Node) : ρ.Blind (holds ev condition) :=
  (hev condition).bind fun v => (blind_ofExcept v.asInt).bind fun _ => blind_pure _

omit hev in
theorem blind_repeatWhile {test body : Exec Bool} {step : Exec Unit} (htest : ρ.Blind test)
    (hbody : ρ.Blind body) (hstep : ρ.Blind step) (fuel : Nat) :
    ρ.Blind (repeatWhile test body step fuel : Exec Unit) := by
  induction fuel with
  | zero => exact blind_unfinished
  | succ fuel ih =>
    rw [Contract.repeatWhile_succ]
    refine htest.bind fun goesOn => ?_
    cases goesOn with
    | false => exact blind_pure ()
    | true =>
      refine hbody.bind fun stops => ?_
      cases stops with
      | true => exact blind_pure ()
      | false => exact hstep.bind fun _ => ih

theorem blind_blockBody (fuel : Nat) (node : Node) : ρ.Blind (blockBody ev fuel node) := by
  have hblock : ∀ nodes, ρ.Blind (runBlock ev nodes : Exec Bool) := blind_runBlock hev
  have hclause : ∀ clause, ρ.Blind (Exec.asClause (ev clause >>= fun _ => pure ())) :=
    fun clause => ((hev clause).bind fun _ => blind_pure ()).asClause
  cases node with
  | ifElse condition yes no =>
    refine (blind_holds hev condition).bind fun holds => ?_
    cases holds with
    | true => exact (hblock yes).bind fun _ => blind_pure ()
    | false =>
      cases no with
      | none => exact blind_pure ()
      | some no => exact (hblock no).bind fun _ => blind_pure ()
  | whileDo condition body =>
    exact blind_repeatWhile (blind_holds hev condition) (hblock body) (blind_pure ()) fuel
  | forDo init condition increment body =>
    exact (hclause init).bind fun _ => blind_repeatWhile (blind_holds hev condition) (hblock body)
      (hclause increment) fuel
  | _ => exact blind_pure ()

theorem blind_runBody (routine : Routine) (args : List Value) :
    ρ.Blind (runBody ev routine args) := by
  unfold runBody
  by_cases hcount : args.length ≠ routine.params.length
  · simp only [if_pos hcount]
    exact blind_fail _
  · simp only [if_neg hcount]
    have hbound : ρ.Blind (Exec.update (·.bound routine args)) := blind_update fun {_ m m'} h => by
      unfold Machine.bound
      rw [h.level]
      exact h.updateScopes _
    refine hbound.bind fun _ => (blind_runBlock hev routine.body).bind fun returned => ?_
    cases returned with
    | true =>
      exact blind_look_eq_bind Alike.signal fun v =>
        (blind_update fun h => h.dropSignal).bind fun _ => blind_pure v
    | false => exact blind_fail _

theorem blind_invoke (routine : Routine) (args : List Value) :
    ρ.Blind (invoke ev routine args) := by
  refine Blind.asCall fun waits m m' h => ?_
  have hbody := blind_runBody hev routine args ((h.atLevel (m.context.level + 1)).withClause false)
  have hleft := hbody.closing fun hn =>
    (hn.closeTo m.context.level).withClause m.context.inClause
  dsimp only
  rw [h.level, h.inClause]
  exact hleft

theorem blind_callFunction (name : String) (args : List Node) :
    ρ.Blind (callFunction ev name args) := by
  refine blind_look_eq_bind (fun h => by rw [h.functions_eq]) fun found => ?_
  cases found with
  | none => exact blind_fail _
  | some routine => exact (blind_evalArgs hev args).bind fun args => blind_invoke hev routine args

/-! ## Definitions and instances -/

omit hev in
theorem blind_registerBox (d : BoxDef) : ρ.Blind (registerBox d) := by
  intro waits m m' h
  have hput : ∀ base, ρ.Blind (Exec.ofExcept (d.complete base) >>= fun d =>
      Exec.update fun m => m.updateBoxesAt m.context.boxes (·.insert d.name d)) := by
    refine fun base => (blind_ofExcept _).bind fun whole => blind_update fun {_ m m'} h => ?_
    rw [h.table]
    exact h.updateBoxesAt _ _
  have hboxes := h.boxes_eq
  rcases const_or_open m.boxes d.name with ⟨old, hold, hconst⟩ | hopen
  · rw [registerBox_of_const hold hconst, registerBox_of_const (hboxes ▸ hold) hconst]
    exact .of h
  · rw [registerBox_of_open hopen, registerBox_of_open (hboxes ▸ hopen), hboxes]
    cases d.base with
    | none => exact ((blind_pure none).bind hput) h
    | some name =>
      dsimp only [Option.elim]
      cases m.boxes.get? name with
      | none => exact ((blind_fail _).bind hput) h
      | some base => exact ((blind_pure (some base)).bind hput) h

omit hev in
theorem blind_boxNamed (name : String) : ρ.Blind (boxNamed name) := by
  refine blind_look_eq_bind (fun h => by rw [h.boxes_eq]) fun found => ?_
  cases found with
  | none => exact blind_fail _
  | some d => exact blind_pure d

/-- The slots of fields hold no locals. -/
theorem blind_makeFields_bind {f : List Slot → Exec α} {made : List Slot}
    (hmade : ∀ slot ∈ made, ρ.slot slot = slot) (specs : List FieldSpec)
    (hf : ∀ fields, (∀ slot ∈ fields, ρ.slot slot = slot) → ρ.Blind (f fields)) :
    ρ.Blind (makeFieldsFrom ev made specs >>= f) := by
  induction specs generalizing made with
  | nil => exact hf made.reverse fun slot hslot => hmade slot (List.mem_reverse.1 hslot)
  | cons s specs ih =>
    have hnext : ∀ v, ρ.Blind
        (makeFieldsFrom ev (.field s.name v s.access :: made) specs >>= f) :=
      fun v => ih (List.forall_mem_cons.2 ⟨rfl, hmade⟩)
    rw [makeFieldsFrom]
    cases s.init with
    | expr node =>
      simp only [bind_assoc]
      exact (hev node).bind hnext
    | fixed value =>
      simp only [pure_bind]
      exact hnext value

theorem blind_instantiate (name : String) : ρ.Blind (instantiate ev name) := by
  refine (blind_boxNamed name).bind fun d => ?_
  cases d.isAbstract with
  | true => exact blind_fail _
  | false =>
    have hnone : ∀ slot ∈ ([] : List Slot), ρ.slot slot = slot := nofun
    refine blind_makeFields_bind hev hnone d.fields fun fields hfields => ?_
    intro waits m m' h
    obtain ⟨hresult, hmade⟩ := h.allocate d hfields
    rw [show BoxScript.allocate d fields m' = ⟨(BoxScript.allocate d fields m).result, _⟩ from
      congrArg (Outcome.mk · _) hresult]
    exact .of hmade

omit hev in
theorem blind_lookupVariable (name : String) : ρ.Blind (lookupVariable name) := by
  intro waits m m' h
  unfold lookupVariable
  rw [h.store, h.level]
  exact blind_ofExcept _ h

omit hev in
theorem blind_instanceIn (holder : String) : ρ.Blind (instanceIn holder) :=
  (blind_lookupVariable holder).bind fun v => blind_ofExcept v.asObject

omit hev in
theorem blind_readField (holder field : String) : ρ.Blind (readField holder field) := by
  refine (blind_instanceIn holder).bind fun o => blind_look_bind fun {waits m m'} h => ?_
  rw [h.instanceAt, field?_relocate]
  rcases (m.instanceAt o).field? field with _ | ⟨value, access⟩
  · exact .of h
  · cases access <;> exact .of h

theorem blind_writeField (holder field : String) (value : Node) :
    ρ.Blind (writeField ev holder field value) := by
  refine (blind_instanceIn holder).bind fun o => blind_look_bind fun {waits m m'} h => ?_
  rw [h.instanceAt, field?_relocate]
  rcases (m.instanceAt o).field? field with _ | ⟨_, access⟩
  · exact .of h
  · cases access with
    | exposed => exact ((hev value).bind fun v => blind_update fun h => h.setField o field v) h
    | guarded => exact .of h

/-! ## Methods -/

theorem blind_runMethod (o : Handle) (routine : Routine) (args : List Value) :
    ρ.Blind (runMethod ev o routine args) := by
  refine Blind.asCall fun waits m m' h => ?_
  rw [h.instanceAt, method?_relocate]
  rcases hfound : (m.instanceAt o).method? routine.signature with _ | ⟨r, access, locals⟩
  · exact .of h
  · obtain ⟨waits', haway, hentered⟩ :=
      h.enterMethod hfound (max m.context.level locals.level + 1)
    have hleft := (blind_runBody hev routine args hentered).closing fun hn =>
      hn.leaveMethod m.context (fun hw => (haway hw).2) o routine.signature
        (max m.context.level locals.level) locals.level
    dsimp only [Option.map_some]
    rw [h.level, h.context]
    exact hleft.mono fun hw => (haway hw).1

theorem blind_callMethod (o : Handle) (call : Invocation) : ρ.Blind (callMethod ev o call) := by
  refine blind_look_bind fun {waits m m'} h => ?_
  rw [h.instanceAt, method?_relocate]
  rcases (m.instanceAt o).method? ⟨call.name, call.args.length⟩ with _ | ⟨routine, access, locals⟩
  · exact .of h
  · cases access with
    | guarded => exact .of h
    | exposed =>
      exact ((blind_evalArgs hev call.args).bind fun args => blind_runMethod hev o routine args) h

/-! ## Calls in a row -/

theorem blind_chainFrom (table : Handle) (previous : Value) (calls : List Invocation) :
    ρ.Blind (chainFrom ev table previous calls) := by
  induction calls generalizing previous with
  | nil => cases previous <;> exact blind_pure _
  | cons call calls ih =>
    cases previous with
    | object o =>
      have hname : ρ.Blind nextChainName := by
        intro waits m m' h
        unfold nextChainName
        rw [h.chained]
        exact .of (h.withChained _)
      refine hname.bind fun name waits m m' h => ?_
      refine Agree.closing ?_ fun hn => hn.updateBoxesAt table _
      refine blind_look_bind (fun {waits m m'} h => ?_) h
      rw [h.instanceAt, toBoxDef_relocate]
      exact ((blind_registerBox _).bind fun _ => (blind_instantiate hev name).bind fun copy =>
        (blind_callMethod hev copy call).bind fun v => ih v) h
    | int | str | array | void => exact blind_fail _

theorem blind_callChain (receiver : Receiver) (first : Invocation) (further : List Invocation) :
    ρ.Blind (callChain ev receiver first further) := by
  refine blind_look_eq_bind Alike.table fun table => Blind.bind ?_ fun o =>
    (blind_callMethod hev o first).bind fun v => blind_chainFrom hev table v further
  cases receiver with
  | named holder => exact blind_instanceIn holder
  | created box => exact blind_instantiate hev box

/-! ## Extensions -/

omit hev in
/-- An instance answers alike, since no answer tells its locals. -/
theorem blind_ofInstance (name : String) (o : Handle) (args : List Value) :
    ρ.Blind (ofInstance name o args) := by
  unfold ofInstance
  split
  -- what is asked of an instance hangs on its fields and functions, which are the same
  · refine (blind_ofExcept _).bind fun box => (blind_boxNamed box).bind fun d => ?_
    refine blind_look_bind fun {waits m m'} h => ?_
    rw [h.instanceAt, fits_relocate]
    exact .of h
  · exact blind_fail _
  · refine (blind_ofExcept _).bind fun _ => (blind_ofExcept _).bind fun field => ?_
    refine (blind_ofExcept _).bind fun guardedToo => blind_look_bind fun {waits m m'} h => ?_
    rw [h.instanceAt, fieldNames_relocate]
    exact .of h
  · exact blind_fail _
  · refine (blind_ofExcept _).bind fun _ => (blind_ofExcept _).bind fun function => ?_
    refine (blind_ofExcept _).bind fun arity => (blind_ofExcept _).bind fun guardedToo => ?_
    refine blind_look_bind fun {waits m m'} h => ?_
    rw [h.instanceAt, signatures_relocate]
    exact .of h
  · exact blind_fail _
  · refine (blind_ofExcept _).bind fun field => blind_look_bind fun {waits m m'} h => ?_
    rw [h.instanceAt, field?_relocate]
    split
    · exact .of h
    · exact ((blind_update fun h => h.setField o _ _).bind fun _ => blind_pure _) h
  · exact blind_fail _
  · exact blind_pure none

omit hev in
theorem blind_callBuiltin (name : String) (receiver : Value) (args : List Value) :
    ρ.Blind (callBuiltin name receiver args) := by
  rw [callBuiltin_eq]
  refine Blind.bind ?_ fun answer => ?_
  · cases receiver with
    | array items =>
      refine blind_look_bind fun {waits m m'} h => ?_
      rw [h.text]
      exact blind_ofExcept _ h
    | str | int => exact blind_ofExcept _
    | object o => exact blind_ofInstance name o args
    | void => exact blind_pure none
  · cases answer with
    | none => exact blind_fail _
    | some v => exact blind_pure v

theorem blind_callExtension (target : Node) (name : String) (args : List Node) :
    ρ.Blind (callExtension ev target name args) := by
  refine (hev target).bind fun receiver => ?_
  cases receiver.isVoid with
  | true => exact blind_pure _
  | false =>
    simp only [Bool.false_eq_true, if_false]
    split
    · exact blind_pure _
    · have hdeclared : ∀ {waits m m'}, ρ.Alike waits m m' →
          declaredFor? (Text.toLower name) receiver args.length m'
            = declaredFor? (Text.toLower name) receiver args.length m := fun h => by
        unfold declaredFor?
        rw [h.extensions_eq]
      refine blind_look_eq_bind hdeclared fun found => ?_
      cases found with
      | none =>
        exact (blind_evalArgs hev args).bind fun args => blind_callBuiltin _ receiver args
      | some e =>
        exact (blind_evalArgs hev args).bind fun args => blind_invoke hev e.routine _

theorem blind_declareExtension (kind box function arity : Node) :
    ρ.Blind (declareExtension ev kind box function arity) := by
  refine (hev kind).bind fun kind => (hev box).bind fun box => ?_
  refine (hev function).bind fun function => (hev arity).bind fun arity => ?_
  split
  · next kindName box function arity =>
    dsimp only
    by_cases hreceiver : arity < 1
    · rw [if_pos hreceiver]
      exact blind_fail _
    · rw [if_neg hreceiver]
      cases Kind.ofName? kindName with
      | none => exact blind_fail _
      | some kind =>
        refine (blind_boxNamed box).bind fun d => (blind_ofExcept _).bind fun routine => ?_
        exact blind_update fun h => h.updateExtensions _
  · exact blind_fail _

/-! ## Files, scripts and the console -/

theorem blind_evalPath (path : Node) : ρ.Blind (evalPath ev path) := by
  refine (hev path).bind fun v => ?_
  cases v with
  | str path => exact blind_pure path
  | int | array | object | void => exact blind_fail _

omit hev in
theorem blind_readFileText (path : String) : ρ.Blind (readFileText path) := by
  intro waits m m' h
  unfold readFileText
  rw [h.files]
  split <;> exact .of h

omit hev in
theorem blind_readInput : ρ.Blind readInput := by
  intro waits m m' h
  unfold readInput
  rw [h.console]
  exact blind_ofExcept _ (h.withConsole _)

/-- A script works on copies of what is in use, so that it cannot tell either. -/
theorem blind_importSource (source : String) : ρ.Blind (importSource ev source) := by
  intro waits m m' h
  cases hparse : Program.ofSource source with
  | error e =>
    rw [importSource_of_error hparse, importSource_of_error hparse]
    exact .of h
  | ok program =>
    rw [importSource_of_ok hparse, importSource_of_ok hparse]
    -- the old store may be in use by the caller, though not by the script
    obtain ⟨waits', haway, h'⟩ := h.split
    have hrun := blind_runProgram hev program h'.forked
    refine Agree.mono ?_ fun hw => (haway hw).1
    generalize runProgram ev program m.forked = o at hrun
    generalize runProgram ev program m'.forked = o' at hrun
    cases hrun with
    | @of result _ _ hsub =>
      have haway' := fun hw => (haway hw).2
      cases result with
      | ok _ => exact .of (h'.merged haway' hsub)
      | error e =>
        dsimp only
        rw [h.chained]
        exact .of (h'.discarded haway' hsub _)
      | unfinished =>
        dsimp only
        rw [hsub.chained]
        exact .of (h'.discarded haway' hsub _)

/-! ## All nodes -/

/-- **The rule for no node can tell**, if the evaluator for the nodes below it cannot. -/
theorem blind_evalNode (fuel : Nat) (node : Node) : ρ.Blind (evalNode ev fuel node) := by
  have done : ∀ {γ : Type} {x : Exec γ}, ρ.Blind x → ρ.Blind (x >>= fun _ => pure Value.void) :=
    fun hx => hx.bind fun _ => blind_pure Value.void
  have hpush : ∀ v, ρ.Blind (Exec.update (·.updateReturns (· ++ [v]))) :=
    fun v => blind_update fun h => h.updateReturns _
  cases node with
  | int n => exact blind_pure _
  | str s => exact blind_pure _
  | var name => exact blind_lookupVariable name
  | assign name value =>
    refine (hev value).bind fun v => done (blind_update fun {_ m m'} h => ?_)
    dsimp only
    rw [h.level, h.inClause]
    exact h.updateScopes _
  | binary op left right =>
    exact (hev left).bind fun a => (hev right).bind fun b => blind_ofExcept _
  | negate operand => exact (hev operand).bind fun v => blind_ofExcept _
  | print value newline =>
    refine (hev value).bind fun v => done (blind_update fun {_ m m'} h => ?_)
    dsimp only
    rw [h.text, h.console]
    exact h.withConsole _
  | function routine => exact done (blind_update fun h => h.updateFunctions _)
  | call name args => exact blind_callFunction hev name args
  | ifElse | whileDo | forDo =>
    rw [evalNode_of_isBlock rfl]
    exact done (blind_blockBody hev fuel _).inBlock
  | giveBack value =>
    cases value with
    | none => exact done (hpush .void)
    | some value => exact (hev value).bind fun v => done (hpush v)
  | input => exact blind_readInput
  | array items => exact (blind_evalArgs hev items).bind fun _ => blind_pure _
  | index target position =>
    exact (hev target).bind fun a => (hev position).bind fun b => blind_ofExcept _
  | extension target name args => exact blind_callExtension hev target name args
  | box declaration => exact done (blind_registerBox _)
  | create box => exact (blind_instantiate hev box).bind fun _ => blind_pure _
  | field holder field => exact blind_readField holder field
  | setField holder field value => exact done (blind_writeField hev holder field value)
  | method receiver first further => exact blind_callChain hev receiver first further
  | raise message =>
    refine (hev message).bind fun v => blind_look_bind fun {waits m m'} h => ?_
    rw [h.text]
    exact .of h
  | importScript path =>
    refine (blind_evalPath hev path).bind fun path => ?_
    refine (blind_readFileText path).bind fun source => ?_
    exact done (blind_importSource hev source)
  | readLines path =>
    exact (blind_evalPath hev path).bind fun path => (blind_readFileText path).bind fun _ =>
      blind_pure _
  | readText path =>
    exact (blind_evalPath hev path).bind fun path => (blind_readFileText path).bind fun _ =>
      blind_pure _
  | fileExists path =>
    refine (blind_evalPath hev path).bind fun path => ?_
    exact blind_look_eq_bind (fun h => by rw [h.files]) fun _ => blind_pure _
  | extend kind box function arity =>
    exact done (blind_declareExtension hev kind box function arity)

end Evaluator

/-- **No evaluation can tell two machines apart that are alike**, with whatever fuel. -/
theorem blind_eval (fuel : Nat) (node : Node) : ρ.Blind (eval fuel node) := by
  induction fuel generalizing node with
  | zero => exact blind_unfinished
  | succ fuel ih => exact blind_evalNode ih fuel node

end Renewal
end BoxScript
