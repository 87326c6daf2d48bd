import BoxScript.Proofs.Arity
import BoxScript.Proofs.Shapes

/-!
# Errors but one

Of all errors only one says that a call has too few or too many arguments for what it calls, and it
is raised in one place: where the arguments are bound (`runBody`). Everything else fails properly,
with other errors only, be it a check (`FailsProperly`) or a computation on the machine
(`Exec.Proper`). The evaluator is gone through once (`proper_evalNode`), and of its rules only those
that look into a table ask that functions stand under their signatures there (`Machine.Keyed`).

A run has to keep to such machines. So the induction on the fuel is about an evaluator that gives up
elsewhere (`proper_evalWhile`), and from a machine of the kind on it is the real one. With that,
`argumentsFit` says of every machine that a session can get to that arguments meet as many
parameters wherever something is called, and that the error never comes.
-/

namespace BoxScript

variable {α β : Type}

/-- The error is another one than that of a call with too few or too many arguments. -/
def RuntimeError.IsProper : RuntimeError → Prop
  | .argumentCount .. => False
  | _ => True

/-! ## Checks -/

/-- If the check fails, it fails properly. -/
structure FailsProperly (x : Except RuntimeError α) : Prop where
  proper : ∀ e, x = .error e → e.IsProper

theorem proper_ok (a : α) : FailsProperly (.ok a) := ⟨nofun⟩

theorem proper_error {e : RuntimeError} (h : e.IsProper) :
    FailsProperly (.error e : Except RuntimeError α) where
  proper := by
    rintro _ ⟨⟩
    exact h

/-- A computation fails properly if both of its parts do. -/
theorem FailsProperly.bind {x : Except RuntimeError α} {f : α → Except RuntimeError β}
    (hx : FailsProperly x) (hf : ∀ a, FailsProperly (f a)) : FailsProperly (x >>= f) := by
  cases x with
  | ok a => exact hf a
  | error e => exact proper_error (hx.proper e rfl)

theorem FailsProperly.mapM {f : α → Except RuntimeError β} (hf : ∀ a, FailsProperly (f a))
    (as : List α) : FailsProperly (as.mapM f) := by
  induction as with
  | nil => exact proper_ok []
  | cons a as ih =>
    rw [List.mapM_cons]
    exact (hf a).bind fun _ => ih.bind fun _ => proper_ok _

/-! ## Operators -/

namespace Operator

/-- Integers fail by overflow and by the errors of their operator only. -/
theorem proper_ints (op : BinOp) (a b : Int64) : FailsProperly (ints op a b) := by
  have hexact : ∀ n, FailsProperly (exact a op b n) := by
    intro n
    unfold exact
    split
    · exact proper_ok _
    · exact proper_error trivial
  unfold ints
  split
  case h_1 | h_2 | h_3 => exact hexact _
  case h_4 =>
    split
    · exact proper_error trivial
    · exact hexact _
  case h_5 =>
    split
    · exact proper_error trivial
    · split
      · exact proper_error trivial
      · exact hexact _
  case h_6 =>
    split
    · exact proper_ok _
    · exact proper_error trivial
  all_goals exact proper_ok _

theorem proper_count (n : Int64) : FailsProperly (count n) := by
  unfold count
  split
  · exact proper_error trivial
  · exact proper_ok _

theorem proper_bounded (size : Nat) : FailsProperly (bounded size) := by
  unfold bounded
  split
  · exact proper_ok _
  · exact proper_error trivial

theorem proper_repeatCount (size : Nat) (n : Int64) : FailsProperly (repeatCount size n) := by
  refine (proper_count n).bind fun n => ?_
  split
  · exact proper_ok 0
  · exact (proper_bounded _).bind fun _ => proper_ok n

theorem proper_shortened (length : Nat) (n : Int64) : FailsProperly (shortened length n) := by
  unfold shortened
  split
  · exact proper_error trivial
  · exact proper_ok _

theorem proper_timesText (s : String) (n : Int64) : FailsProperly (timesText s n) :=
  (proper_repeatCount _ n).bind fun _ => proper_ok _

theorem proper_divideText (s : String) (n : Int64) : FailsProperly (divideText s n) := by
  unfold divideText
  split
  · exact proper_error trivial
  · dsimp only
    split
    · exact proper_error trivial
    · exact proper_ok _

theorem proper_timesItems (items : List Value) (n : Int64) :
    FailsProperly (timesItems items n) :=
  (proper_repeatCount _ n).bind fun _ => proper_ok _

theorem proper_divideItems (items : List Value) (parts : Int64) :
    FailsProperly (divideItems items parts) := by
  unfold divideItems
  split
  · exact proper_error trivial
  · exact (proper_bounded _).bind fun _ => proper_ok _

theorem proper_timesEach (items counts : List Value) :
    FailsProperly (timesEach items counts) := by
  have hcount : ∀ v, FailsProperly (countOf v) := by
    intro v
    cases v with
    | int n => exact proper_count n
    | str | array | object | void => exact proper_error trivial
  refine (FailsProperly.mapM hcount counts).bind fun counts => ?_
  split
  · exact proper_error trivial
  · exact (proper_bounded _).bind fun _ => proper_ok _

theorem proper_binary (op : BinOp) (a b : Value) : FailsProperly (binary op a b) := by
  unfold binary
  dsimp only
  split
  case h_3 => exact proper_ints ..
  all_goals first
    | exact proper_error trivial
    | split
  all_goals first
    | exact proper_ok _
    | exact proper_error trivial
    | exact proper_timesText ..
    | exact proper_divideText ..
    | exact proper_timesItems ..
    | exact proper_divideItems ..
    | exact proper_timesEach ..
    | exact (proper_shortened ..).bind fun _ => proper_ok _

theorem proper_negate (v : Value) : FailsProperly (negate v) := by
  unfold negate
  split
  · split
    · exact proper_ok _
    · exact proper_error trivial
  · exact proper_error trivial
  · exact proper_error trivial

theorem proper_index (target position : Value) : FailsProperly (index target position) := by
  unfold index
  split
  · split
    · exact proper_error trivial
    · split
      · exact proper_ok _
      · exact proper_error trivial
  · exact proper_error trivial
  · exact proper_error trivial

end Operator

/-! ## Built-in extensions -/

namespace Builtin

theorem proper_expectArgs (name : String) (args : List Value) (allowed : List Nat) :
    FailsProperly (expectArgs name args allowed) := by
  unfold expectArgs
  split
  · exact proper_ok ()
  · exact proper_error trivial

theorem proper_intArg (name : String) (v : Value) : FailsProperly (intArg name v) := by
  cases v with
  | int n => exact proper_ok n
  | str | array | object | void => exact proper_error trivial

theorem proper_strArg (name : String) (v : Value) : FailsProperly (strArg name v) := by
  cases v with
  | str s => exact proper_ok s
  | int | array | object | void => exact proper_error trivial

theorem proper_position (name : String) (i : Int64) (length limit : Nat) :
    FailsProperly (position name i length limit) := by
  unfold position
  split
  · exact proper_error trivial
  · exact proper_ok _

theorem proper_replaceNested (value : Value) (path : List Int64) (items : List Value) :
    FailsProperly (replaceNested value path items) := by
  induction path generalizing items with
  | nil => exact proper_error trivial
  | cons i rest ih =>
    cases rest with
    | nil => exact (proper_position ..).bind fun _ => proper_ok _
    | cons j rest =>
      refine (proper_position ..).bind fun n => ?_
      split
      · exact (ih _).bind fun _ => proper_ok _
      · exact proper_error trivial

theorem proper_ofArray (text : Value → String) (name : String) (items args : List Value) :
    FailsProperly (ofArray text name items args) := by
  unfold ofArray
  split
  case h_1 | h_2 | h_4 => exact (proper_expectArgs ..).bind fun _ => proper_ok _
  case h_3 => exact (proper_strArg ..).bind fun _ => proper_ok _
  case h_5 =>
    split
    · exact proper_error trivial
    · exact (proper_intArg ..).bind fun _ => (proper_position ..).bind fun _ => proper_ok _
  case h_9 => exact (proper_intArg ..).bind fun _ => (proper_position ..).bind fun _ => proper_ok _
  case h_13 =>
    split
    · exact proper_error trivial
    · refine (FailsProperly.mapM (fun _ => proper_intArg ..) _).bind fun _ => ?_
      exact (proper_replaceNested ..).bind fun _ => proper_ok _
  -- the wrong number of arguments is an error of its own kind
  case h_6 | h_8 | h_10 | h_12 | h_16 | h_17 => exact proper_error trivial
  case h_7 | h_11 | h_14 | h_15 | h_18 => exact proper_ok _

theorem proper_ofString (name s : String) (args : List Value) :
    FailsProperly (ofString name s args) := by
  unfold ofString
  split
  case h_6 =>
    refine (proper_expectArgs ..).bind fun _ => ?_
    split
    · exact proper_ok _
    · exact proper_error trivial
  case h_8 => exact (proper_strArg ..).bind fun _ => proper_ok _
  case h_10 =>
    refine (proper_intArg ..).bind fun _ => (proper_strArg ..).bind fun _ => ?_
    exact (proper_position ..).bind fun _ => proper_ok _
  case h_11 => exact proper_error trivial
  case h_12 => exact proper_ok _
  all_goals exact (proper_expectArgs ..).bind fun _ => proper_ok _

theorem proper_ofInt (name : String) (n : Int64) (args : List Value) :
    FailsProperly (ofInt name n args) := by
  unfold ofInt
  split
  · exact (proper_expectArgs ..).bind fun _ => proper_ok _
  · exact proper_ok _

end Builtin

/-! ## Computations -/

/-- If the computation has failed, it has failed properly. -/
structure Outcome.Proper (o : Outcome α) : Prop where
  proper : ∀ e, o.result = .error e → e.IsProper

/-- The computation fails properly wherever it fails. -/
def Exec.Proper (x : Exec α) : Prop := ∀ m, (x m).Proper

theorem Outcome.proper_ok (a : α) (m : Machine) : Outcome.Proper ⟨.ok a, m⟩ := ⟨nofun⟩

theorem Outcome.proper_unfinished (m : Machine) :
    Outcome.Proper (⟨.unfinished, m⟩ : Outcome α) := ⟨nofun⟩

theorem Outcome.proper_error {e : RuntimeError} {m : Machine} (h : e.IsProper) :
    Outcome.Proper (⟨.error e, m⟩ : Outcome α) where
  proper := by
    rintro _ ⟨⟩
    exact h

/-- What follows has to fail properly on the machine that it is left. -/
theorem Outcome.Proper.bind {x : Exec α} {f : α → Exec β} {m : Machine} (hx : (x m).Proper)
    (hf : ∀ a m', x m = ⟨.ok a, m'⟩ → (f a m').Proper) : ((x >>= f) m).Proper := by
  rw [Exec.bind_apply]
  rcases hresult : x m with ⟨a | e | _, m'⟩
  · exact hf a m' hresult
  · exact proper_error (hx.proper e (by rw [hresult]))
  · exact proper_unfinished m'

theorem proper_pure (a : α) : (pure a : Exec α).Proper := Outcome.proper_ok a

theorem proper_fail {e : RuntimeError} (h : e.IsProper) :
    (Exec.fail e : Exec α).Proper := fun _ => Outcome.proper_error h

theorem proper_look (f : Machine → α) : (Exec.look f).Proper :=
  fun m => Outcome.proper_ok (f m) m

theorem proper_update (f : Machine → Machine) : (Exec.update f).Proper :=
  fun m => Outcome.proper_ok () (f m)

/-- The errors of a pure computation are those of the machine. -/
theorem proper_ofExcept {x : Except RuntimeError α} (h : FailsProperly x) :
    (Exec.ofExcept x).Proper := by
  intro m
  cases x with
  | ok a => exact Outcome.proper_ok a m
  | error e => exact Outcome.proper_error (h.proper e rfl)

namespace Exec.Proper

variable {x : Exec α}

theorem bind {f : α → Exec β} (hx : x.Proper) (hf : ∀ a, (f a).Proper) : (x >>= f).Proper :=
  fun m => (hx m).bind fun a m' _ => hf a m'

theorem closing (hx : x.Proper) (leave : Machine → Machine) : (Exec.closing x leave).Proper :=
  fun m => ⟨(hx m).proper⟩

/-- Opening and closing a scope adds no error. -/
theorem inBlock (hx : x.Proper) : (Exec.inBlock x).Proper := by
  intro m
  unfold Exec.inBlock
  exact hx.closing _ _

theorem asClause (hx : x.Proper) : (Exec.asClause x).Proper := by
  intro m
  unfold Exec.asClause
  exact hx.closing _ _

/-- A call adds the error that calls are too deep, which is a proper one. -/
theorem asCall (hx : x.Proper) : (Exec.asCall x).Proper := by
  intro m
  unfold Exec.asCall
  rw [deepening_eq]
  split
  · exact Outcome.proper_error trivial
  · exact hx.closing _ _

end Exec.Proper

section Evaluator

variable {ev : Evaluator} (hev : ∀ node, (ev node).Proper)

include hev

/-! ## Blocks and loops -/

theorem proper_evalArgs (args : List Node) : (evalArgs ev args).Proper := by
  have key : ∀ done, Exec.Proper (evalArgsFrom ev done args) := by
    induction args with
    | nil => exact fun done => proper_pure done.reverse
    | cons arg args ih =>
      intro done
      rw [Contract.evalArgsFrom_cons]
      exact (hev arg).bind fun v => ih (v :: done)
  exact key []

theorem proper_runBlock (nodes : List Node) : Exec.Proper (runBlock ev nodes) := by
  induction nodes with
  | nil => exact proper_pure false
  | cons node nodes ih =>
    rw [Contract.runBlock_cons]
    refine (hev node).bind fun _ => (proper_look _).bind fun stops => ?_
    cases stops with
    | true => exact proper_pure true
    | false => exact ih

theorem proper_runProgram (program : Program) :
    Exec.Proper (runProgram ev program) := by
  induction program with
  | nil => exact proper_pure ()
  | cons node nodes ih =>
    rw [Tracked.runProgram_cons]
    refine (hev node).bind fun _ => (proper_look _).bind fun stops => ?_
    cases stops with
    | true => exact proper_update _
    | false => exact ih

theorem proper_holds (condition : Node) : (holds ev condition).Proper := by
  refine (hev condition).bind fun v => (proper_ofExcept ?_).bind fun _ => proper_pure _
  cases v with
  | int n => exact proper_ok n
  | str | array | object | void => exact proper_error trivial

omit hev in
theorem proper_repeatWhile {test body : Exec Bool} {step : Exec Unit} (htest : test.Proper)
    (hbody : body.Proper) (hstep : step.Proper) (fuel : Nat) :
    Exec.Proper (repeatWhile test body step fuel) := by
  induction fuel with
  | zero => exact Outcome.proper_unfinished
  | succ fuel ih =>
    rw [Contract.repeatWhile_succ]
    refine htest.bind fun goesOn => ?_
    cases goesOn with
    | false => exact proper_pure ()
    | true =>
      refine hbody.bind fun stops => ?_
      cases stops with
      | true => exact proper_pure ()
      | false => exact hstep.bind fun _ => ih

theorem proper_blockBody (fuel : Nat) (node : Node) : (blockBody ev fuel node).Proper := by
  have hblock : ∀ nodes, Exec.Proper (runBlock ev nodes) := proper_runBlock hev
  have hclause : ∀ clause, (Exec.asClause (ev clause >>= fun _ => pure ())).Proper :=
    fun clause => ((hev clause).bind fun _ => proper_pure ()).asClause
  cases node with
  | ifElse condition yes no =>
    refine (proper_holds hev condition).bind fun holds => ?_
    cases holds with
    | true => exact (hblock yes).bind fun _ => proper_pure ()
    | false =>
      cases no with
      | none => exact proper_pure ()
      | some no => exact (hblock no).bind fun _ => proper_pure ()
  | whileDo condition body =>
    exact proper_repeatWhile (proper_holds hev condition) (hblock body) (proper_pure ()) fuel
  | forDo init condition increment body =>
    exact (hclause init).bind fun _ => proper_repeatWhile (proper_holds hev condition)
      (hblock body) (hclause increment) fuel
  | _ => exact proper_pure ()

/-! ## Calls -/

/-- With as many arguments as parameters a body fails properly. -/
theorem proper_runBody {routine : Routine} {args : List Value}
    (h : args.length = routine.params.length) : (runBody ev routine args).Proper := by
  intro m
  rw [runBody_of_length h]
  refine ((proper_runBlock hev routine.body).bind fun returned => ?_) _
  cases returned with
  | true => exact (proper_look _).bind fun v => (proper_update _).bind fun _ => proper_pure v
  | false => exact proper_fail trivial

/-- Arguments that are as many as the parameters are bound without an error. -/
theorem proper_invoke {routine : Routine} {args : List Value}
    (h : args.length = routine.params.length) : (invoke ev routine args).Proper :=
  Exec.Proper.asCall fun _ => (proper_runBody hev h).closing _ _

theorem proper_runMethod {routine : Routine} {args : List Value} (o : Handle)
    (h : args.length = routine.params.length) : (runMethod ev o routine args).Proper := by
  refine Exec.Proper.asCall fun m => ?_
  dsimp only
  split
  · exact Outcome.proper_error trivial
  · exact (proper_runBody hev h).closing _ _

/-- The function that is found has as many parameters as there are arguments. -/
theorem proper_callFunction {m : Machine} (hm : m.Keyed) (name : String) (args : List Node) :
    (callFunction ev name args m).Proper := by
  cases hfound : m.functions.get? ⟨name, args.length⟩ with
  | none =>
    simp only [callFunction, Exec.bind_apply, Exec.look, hfound]
    exact Outcome.proper_error trivial
  | some r =>
    rw [callFunction_of_found hfound]
    refine (proper_evalArgs hev args m).bind fun values m' hvalues => proper_invoke hev ?_ m'
    rw [length_of_evalArgs hvalues, hm.params_of_found hfound]

theorem proper_callMethod (o : Handle) (call : Invocation) : (callMethod ev o call).Proper := by
  intro m
  rcases hfound : (m.instanceAt o).method? call.signature with _ | ⟨r, access, locals⟩
  · have hnone : (m.instanceAt o).method? ⟨call.name, call.args.length⟩ = none := hfound
    simp only [callMethod, Exec.bind_apply, Exec.look, hnone]
    exact Outcome.proper_error trivial
  · cases access with
    | guarded =>
      have hguarded : (m.instanceAt o).method? ⟨call.name, call.args.length⟩
          = some (r, .guarded, locals) := hfound
      simp only [callMethod, Exec.bind_apply, Exec.look, hguarded]
      exact Outcome.proper_error trivial
    | exposed =>
      rw [callMethod_of_found hfound]
      refine (proper_evalArgs hev call.args m).bind fun values m' hvalues => ?_
      refine proper_runMethod hev o ?_ m'
      rw [length_of_evalArgs hvalues, Instance.params_of_method hfound]
      rfl

/-! ## Definitions and instances -/

omit hev in
theorem BoxDef.proper_complete (d : BoxDef) (base : Option BoxDef) :
    FailsProperly (d.complete base) := by
  unfold complete
  cases firstRepeated? [] (d.fields.map (·.name)) with
  | some field => exact proper_error trivial
  | none =>
    cases firstRepeated? [] (d.methods.map (·.signature)) with
    | some signature => exact proper_error trivial
    | none =>
      cases base <;>
      · dsimp only
        split
        · exact proper_error (e := .abstractNotOverridden _ _) trivial
        · exact proper_ok _

omit hev in
theorem proper_registerBox (d : BoxDef) : (registerBox d).Proper := by
  intro m
  rcases const_or_open m.boxes d.name with ⟨old, hold, hconst⟩ | hopen
  · rw [registerBox_of_const hold hconst]
    exact Outcome.proper_error trivial
  · rw [registerBox_of_open hopen]
    refine (Exec.Proper.bind ?_ fun base => (proper_ofExcept (d.proper_complete base)).bind fun whole =>
      proper_update _) m
    cases d.base with
    | none => exact proper_pure none
    | some name =>
      dsimp only [Option.elim]
      cases m.boxes.get? name with
      | none => exact proper_fail trivial
      | some base => exact proper_pure (some base)

omit hev in
theorem proper_boxNamed (name : String) : (boxNamed name).Proper := by
  refine (proper_look _).bind fun found => ?_
  cases found with
  | none => exact proper_fail trivial
  | some d => exact proper_pure d

theorem proper_makeFieldsFrom (made : List Slot) (specs : List FieldSpec) :
    (makeFieldsFrom ev made specs).Proper := by
  induction specs generalizing made with
  | nil => exact proper_pure _
  | cons s specs ih =>
    rw [makeFieldsFrom]
    cases s.init with
    | expr node => exact (hev node).bind fun v => ih _
    | fixed value => exact (proper_pure value).bind fun v => ih _

theorem proper_instantiate (name : String) : (instantiate ev name).Proper := by
  refine (proper_boxNamed name).bind fun d => ?_
  cases d.isAbstract with
  | true => exact proper_fail trivial
  | false =>
    exact (proper_makeFieldsFrom hev [] d.fields).bind fun fields m => Outcome.proper_ok _ _

omit hev in
theorem proper_lookupVariable (name : String) : (lookupVariable name).Proper := by
  intro m
  refine proper_ofExcept ?_ m
  unfold Scopes.get
  split
  · exact proper_ok _
  · exact proper_error trivial

omit hev in
theorem proper_instanceIn (holder : String) : (instanceIn holder).Proper := by
  refine (proper_lookupVariable holder).bind fun v => proper_ofExcept ?_
  cases v with
  | object h => exact proper_ok h
  | int | str | array | void => exact proper_error trivial

omit hev in
theorem proper_readField (holder field : String) : (readField holder field).Proper := by
  refine (proper_instanceIn holder).bind fun o => (proper_look _).bind fun i => ?_
  rcases i.field? field with _ | ⟨value, access⟩
  · exact proper_fail trivial
  · cases access with
    | exposed => exact proper_pure value
    | guarded => exact proper_fail trivial

theorem proper_writeField (holder field : String) (value : Node) :
    (writeField ev holder field value).Proper := by
  refine (proper_instanceIn holder).bind fun o => (proper_look _).bind fun i => ?_
  rcases i.field? field with _ | ⟨_, access⟩
  · exact proper_fail trivial
  · cases access with
    | exposed => exact (hev value).bind fun v => proper_update _
    | guarded => exact proper_fail trivial

/-! ## Calls in a row -/

theorem proper_chainFrom (table : Handle) (previous : Value) (calls : List Invocation) :
    (chainFrom ev table previous calls).Proper := by
  induction calls generalizing previous with
  | nil => cases previous <;> exact proper_pure _
  | cons call calls ih =>
    cases previous with
    | object o =>
      have hname : nextChainName.Proper := fun m => Outcome.proper_ok _ _
      refine hname.bind fun name => Exec.Proper.closing ?_ _
      refine (proper_look _).bind fun i => (proper_registerBox _).bind fun _ => ?_
      refine (proper_instantiate hev name).bind fun copy => ?_
      exact (proper_callMethod hev copy call).bind fun v => ih v
    | int | str | array | void => exact proper_fail trivial

theorem proper_callChain (receiver : Receiver) (first : Invocation)
    (further : List Invocation) : (callChain ev receiver first further).Proper := by
  refine (proper_look _).bind fun table => Exec.Proper.bind ?_ fun o =>
    (proper_callMethod hev o first).bind fun v => proper_chainFrom hev table v further
  cases receiver with
  | named holder => exact proper_instanceIn holder
  | created box => exact proper_instantiate hev box

/-! ## Extensions -/

omit hev in
/-- What an instance answers for itself has its own errors. -/
theorem proper_ofInstance (name : String) (o : Handle) (args : List Value) :
    (ofInstance name o args).Proper := by
  have hflag : ∀ default v, FailsProperly (guardedFlag name default v) := by
    intro default v
    cases v with
    | none => exact proper_ok default
    | some v => exact (Builtin.proper_intArg name v).bind fun _ => proper_ok _
  unfold ofInstance
  split
  · refine (proper_ofExcept (Builtin.proper_strArg ..)).bind fun box => ?_
    exact (proper_boxNamed box).bind fun d => (proper_look _).bind fun i => proper_pure _
  · exact proper_fail trivial
  · refine (proper_ofExcept (Builtin.proper_expectArgs ..)).bind fun _ => ?_
    refine (proper_ofExcept (Builtin.proper_strArg ..)).bind fun _ => ?_
    exact (proper_ofExcept (hflag ..)).bind fun _ => (proper_look _).bind fun i => proper_pure _
  · exact proper_fail trivial
  · refine (proper_ofExcept (Builtin.proper_expectArgs ..)).bind fun _ => ?_
    refine (proper_ofExcept (Builtin.proper_strArg ..)).bind fun _ => ?_
    refine (proper_ofExcept (Builtin.proper_intArg ..)).bind fun _ => ?_
    exact (proper_ofExcept (hflag ..)).bind fun _ => (proper_look _).bind fun i => proper_pure _
  · exact proper_fail trivial
  · refine (proper_ofExcept (Builtin.proper_strArg ..)).bind fun field => ?_
    refine (proper_look _).bind fun i => ?_
    split
    · exact proper_fail trivial
    · exact (proper_update _).bind fun _ => proper_pure _
  · exact proper_fail trivial
  · exact proper_pure none

omit hev in
theorem proper_callBuiltin (name : String) (receiver : Value) (args : List Value) :
    (callBuiltin name receiver args).Proper := by
  rw [callBuiltin_eq]
  refine Exec.Proper.bind ?_ fun answer => ?_
  · cases receiver with
    | array items =>
      exact (proper_look _).bind fun heap => proper_ofExcept (Builtin.proper_ofArray ..)
    | str s => exact proper_ofExcept (Builtin.proper_ofString ..)
    | int n => exact proper_ofExcept (Builtin.proper_ofInt ..)
    | object o => exact proper_ofInstance name o args
    | void => exact proper_pure none
  · cases answer with
    | none => exact proper_fail trivial
    | some v => exact proper_pure v

/-- The extension is looked for after the value that it is called on has been evaluated. -/
theorem proper_callExtension {m : Machine} {target : Node}
    (hm : ∀ v m', ev target m = ⟨.ok v, m'⟩ → m'.Keyed) (name : String) (args : List Node) :
    (callExtension ev target name args m).Proper := by
  refine (hev target m).bind fun receiver m₁ hreceiver => ?_
  have hm₁ := hm receiver m₁ hreceiver
  cases receiver.isVoid with
  | true => exact proper_pure _ m₁
  | false =>
    simp only [Bool.false_eq_true, if_false]
    split
    · exact proper_pure _ m₁
    · rw [Exec.bind_apply]
      dsimp only [Exec.look]
      cases hfound : declaredFor? (Text.toLower name) receiver args.length m₁ with
      | none => exact (proper_evalArgs hev args).bind (fun args => proper_callBuiltin _ receiver args) m₁
      | some e =>
        refine (proper_evalArgs hev args m₁).bind fun values m₂ hvalues => ?_
        refine proper_invoke hev ?_ m₂
        rw [List.length_cons, length_of_evalArgs hvalues, hm₁.params_of_declared hfound]

omit hev in
/-- The function that is to be an extension is looked for with errors of its own. -/
theorem proper_extensionRoutine (d : BoxDef) (box function : String) (arity : Int64) :
    FailsProperly (extensionRoutine d box function arity) := by
  unfold extensionRoutine
  cases d.isConst with
  | false => exact proper_error (e := .extensionBoxNotConst _) trivial
  | true =>
    cases d.isAbstract with
    | true => exact proper_error (e := .extensionBoxAbstract _) trivial
    | false =>
      simp only [Bool.not_true, Bool.false_eq_true, if_false]
      split
      · exact proper_error (e := .extensionFunctionMissing _ _ _) trivial
      · split
        · exact proper_error (e := .extensionFunctionGuarded _) trivial
        · exact proper_ok _

theorem proper_declareExtension (kind box function arity : Node) :
    (declareExtension ev kind box function arity).Proper := by
  refine (hev kind).bind fun kind => (hev box).bind fun box => ?_
  refine (hev function).bind fun function => (hev arity).bind fun arity => ?_
  split
  · next kindName box function arity =>
    dsimp only
    by_cases hreceiver : arity < 1
    · rw [if_pos hreceiver]
      exact proper_fail trivial
    · rw [if_neg hreceiver]
      cases Kind.ofName? kindName with
      | none => exact proper_fail trivial
      | some kind =>
        refine (proper_boxNamed box).bind fun d => ?_
        exact (proper_ofExcept (proper_extensionRoutine ..)).bind fun routine => proper_update _
  · exact proper_fail trivial

/-! ## Files, scripts and the console -/

theorem proper_evalPath (path : Node) : (evalPath ev path).Proper := by
  refine (hev path).bind fun v => ?_
  cases v with
  | str path => exact proper_pure path
  | int | array | object | void => exact proper_fail trivial

omit hev in
theorem proper_readFileText (path : String) : (readFileText path).Proper := by
  intro m
  unfold readFileText
  split
  · exact proper_pure _ m
  · exact Outcome.proper_error trivial

omit hev in
theorem proper_readInput : readInput.Proper := by
  intro m
  have hvalue : FailsProperly m.console.readValue.1 := by
    unfold Console.readValue
    dsimp only
    split
    · exact proper_error trivial
    · exact proper_ok _
  exact proper_ofExcept hvalue _

omit hev in
/-- A failure of a script that is imported is one of the import. -/
theorem proper_importSource (ev : Evaluator) (source : String) : (importSource ev source).Proper := by
  intro m
  cases hparse : Program.ofSource source with
  | error e =>
    rw [importSource_of_error hparse]
    exact Outcome.proper_error trivial
  | ok program =>
    rw [importSource_of_ok hparse]
    split
    · exact Outcome.proper_ok _ _
    · exact Outcome.proper_error trivial
    · exact Outcome.proper_unfinished _

/-! ## All nodes -/

/-- **The rule for every node fails properly** where functions stand under their signatures, if the
evaluator for the nodes below it fails properly and does not bring that about. -/
theorem proper_evalNode (fuel : Nat) {node : Node} {m : Machine} (hm : m.Keyed)
    (hkeyed : ∀ n v m', ev n m = ⟨.ok v, m'⟩ → m'.Keyed) : (evalNode ev fuel node m).Proper := by
  have done : ∀ {γ : Type} {x : Exec γ}, x.Proper → (x >>= fun _ => pure Value.void).Proper :=
    fun hx => hx.bind fun _ => proper_pure Value.void
  -- only calls look for something by the number of its arguments; all else fails by its own errors
  cases node with
  | call name args => exact proper_callFunction hev hm name args
  | extension target name args => exact proper_callExtension hev (hkeyed target) name args
  | int n => exact proper_pure _ m
  | str s => exact proper_pure _ m
  | var name => exact proper_lookupVariable name m
  | assign name value => exact (hev value).bind (fun v => done (proper_update _)) m
  | binary op left right =>
    exact (hev left).bind (fun a => (hev right).bind fun b =>
      proper_ofExcept (Operator.proper_binary ..)) m
  | negate operand =>
    exact (hev operand).bind (fun v => proper_ofExcept (Operator.proper_negate v)) m
  | print value newline => exact (hev value).bind (fun v => done (proper_update _)) m
  | function routine => exact done (proper_update _) m
  | ifElse | whileDo | forDo =>
    rw [evalNode_of_isBlock rfl]
    exact done (proper_blockBody hev fuel _).inBlock m
  | giveBack value =>
    cases value with
    | none => exact done (proper_update _) m
    | some value => exact (hev value).bind (fun v => done (proper_update _)) m
  | input => exact proper_readInput m
  | array items => exact (proper_evalArgs hev items).bind (fun _ => proper_pure _) m
  | index target position =>
    exact (hev target).bind (fun a => (hev position).bind fun b =>
      proper_ofExcept (Operator.proper_index ..)) m
  | box declaration => exact done (proper_registerBox _) m
  | create box => exact (proper_instantiate hev box).bind (fun _ => proper_pure _) m
  | field holder field => exact proper_readField holder field m
  | setField holder field value => exact done (proper_writeField hev holder field value) m
  | method receiver first further => exact proper_callChain hev receiver first further m
  | raise message =>
    refine (hev message).bind (fun v => (proper_look _).bind fun text => ?_) m
    exact proper_fail trivial
  | importScript path =>
    exact (proper_evalPath hev path).bind (fun path => (proper_readFileText path).bind fun source =>
      done (proper_importSource ev source)) m
  | readLines path =>
    exact (proper_evalPath hev path).bind (fun path => (proper_readFileText path).bind fun _ =>
      proper_pure _) m
  | readText path =>
    exact (proper_evalPath hev path).bind (fun path => (proper_readFileText path).bind fun _ =>
      proper_pure _) m
  | fileExists path =>
    exact (proper_evalPath hev path).bind (fun path => (proper_look _).bind fun _ =>
      proper_pure _) m
  | extend kind box function arity =>
    exact done (proper_declareExtension hev kind box function arity) m

end Evaluator

/-! ## Runs -/

/-- Nothing that is evaluated as long as functions stand under their signatures fails improperly. -/
theorem proper_evalWhile (fuel : Nat) (node : Node) :
    (evalWhile (fun _ m => m.Keyed) fuel node).Proper := by
  induction fuel generalizing node with
  | zero => exact fun _ => Outcome.proper_unfinished _
  | succ fuel ih =>
    intro m
    by_cases hm : m.Keyed
    · rw [evalWhile_of_holds hm]
      refine proper_evalNode ih fuel hm fun n v m' hresult => ?_
      have hsame : evalWhile (fun _ m => m.Keyed) fuel n m = eval fuel n m :=
        key_frames.throughout_eval id (fun _ _ _ hm => hm) hm fuel (anyNode n) _
      have moves := key_frames.moves_eval hm fuel (anyNode n)
      rw [← hsame, hresult] at moves
      exact moves.inv
    · rw [evalWhile_of_not hm]
      exact Outcome.proper_unfinished m

/-- **No evaluation finds too few or too many arguments** where functions stand under their
signatures. -/
theorem Machine.Keyed.proper_eval {m : Machine} (hm : m.Keyed) (fuel : Nat) (node : Node) :
    (eval fuel node m).Proper := by
  have hsame : evalWhile (fun _ m => m.Keyed) fuel node m = eval fuel node m :=
    key_frames.throughout_eval id (fun _ _ _ hm => hm) hm fuel (anyNode node) _
  rw [← hsame]
  exact proper_evalWhile fuel node m

theorem Machine.Keyed.proper_runProgram {m : Machine} (hm : m.Keyed) (fuel : Nat)
    (program : Program) : Outcome.Proper (runProgram (eval fuel) program m) := by
  have hsame : runProgram (evalWhile (fun _ m => m.Keyed) fuel) program m
      = runProgram (eval fuel) program m :=
    key_frames.throughout_runProgram id (fun _ _ _ hm => hm) hm fuel (fun n _ => anyNode n) _
  rw [← hsame]
  exact BoxScript.proper_runProgram (proper_evalWhile fuel) program m

/-! ## Arguments and parameters -/

/-- A body takes the arguments, one for each parameter, and starts with the parameters bound to
them. -/
structure Routine.Takes (routine : Routine) (args : List Value) : Prop where
  length : args.length = routine.params.length
  begins : ∀ ev m, runBody ev routine args m
    = (runBlock ev routine.body >>= takeSignal routine) (m.bound routine args)

/-- As many values as parameters are bound one to one. -/
theorem Routine.takes_of_length {routine : Routine} {args : List Value}
    (h : args.length = routine.params.length) : routine.Takes args :=
  ⟨h, fun ev m => runBody_of_length h ev m⟩

/-- Where the tables of a machine lead, arguments meet as many parameters. -/
structure Machine.ArgumentsFit (m : Machine) : Prop where
  /-- A function stands under its own name and the number of its own parameters. -/
  functions : ∀ {key r}, m.functions.get? key = some r → key = ⟨r.name, r.params.length⟩
  /-- An extension has a parameter for the value that it is called on. -/
  extensions : ∀ {name e}, m.extensions.get? name = some e → 1 ≤ e.routine.params.length
  /-- The call of a function that is there runs its body on values for all its parameters. -/
  call : ∀ {fuel name args r values m'}, m.functions.get? ⟨name, args.length⟩ = some r →
    evalArgs (eval fuel) args m = ⟨.ok values, m'⟩ →
    callFunction (eval fuel) name args m = invoke (eval fuel) r values m' ∧ r.Takes values
  /-- So does the call of a method that everyone may call. -/
  method : ∀ {fuel h call r locals values m'},
    (m.instanceAt h).method? call.signature = some (r, .exposed, locals) →
    evalArgs (eval fuel) call.args m = ⟨.ok values, m'⟩ →
    callMethod (eval fuel) h call m = runMethod (eval fuel) h r values m' ∧ r.Takes values
  /-- The call of an extension that is declared for a value runs its body on that value and those
  of its arguments: the value is bound to the first parameter, the others to the rest. -/
  extension : ∀ {fuel target name args receiver m₁ e values m₂},
    eval fuel target m = ⟨.ok receiver, m₁⟩ → receiver.isVoid = false →
    Text.toLower name ≠ "type" →
    declaredFor? (Text.toLower name) receiver args.length m₁ = some e →
    evalArgs (eval fuel) args m₁ = ⟨.ok values, m₂⟩ →
    callExtension (eval fuel) target name args m
        = invoke (eval fuel) e.routine (receiver :: values) m₂ ∧
      e.routine.Takes (receiver :: values) ∧
      ∃ first further, e.routine.params = first :: further ∧ values.length = further.length ∧
        ∀ level s, bindParams level e.routine.params (receiver :: values) s
          = bindParams level further values (s.set first receiver level true)
  /-- No evaluation ends with the error that the arguments are too few or too many. -/
  never : ∀ fuel node name expected given,
    (eval fuel node m).result ≠ .error (.argumentCount name expected given)
  /-- Nor does a run of a source text. -/
  run : ∀ fuel source name expected given,
    (m.runWith fuel source).1 ≠ .failed (.runtime (.argumentCount name expected given))

/-- **Arguments always meet as many parameters**, on every machine that a session can get to, in the
middle of a run too. -/
theorem argumentsFit {m : Machine} (h : Attained m) : m.ArgumentsFit := by
  have hm := h.keyed
  constructor
  case functions => exact fun hr => (hm.functions _ _ _ hr).symm
  case extensions => exact fun he => List.length_pos_iff.2 (hm.extensions _ _ _ he)
  case call =>
    intro fuel name args r values m' hfound hvalues
    refine ⟨(callFunction_of_found hfound).trans (Exec.bind_ok hvalues), ?_⟩
    refine Routine.takes_of_length ?_
    rw [length_of_evalArgs hvalues, hm.params_of_found hfound]
  case method =>
    intro fuel o call r locals values m' hfound hvalues
    refine ⟨(callMethod_of_found hfound).trans (Exec.bind_ok hvalues), ?_⟩
    refine Routine.takes_of_length ?_
    rw [length_of_evalArgs hvalues, Instance.params_of_method hfound]
    rfl
  -- the table may have changed with the receiver, but not its order
  case extension =>
    intro fuel target name args receiver m₁ e values m₂ hreceiver hvoid htype hfound hvalues
    have moves := key_frames.moves_eval hm fuel (anyNode target)
    rw [hreceiver] at moves
    have hparams := moves.inv.params_of_declared hfound
    have hlength := length_of_evalArgs hvalues
    have hcall := callExtension_of_declared hreceiver hvoid htype hfound
    refine ⟨hcall.trans (Exec.bind_ok hvalues), Routine.takes_of_length ?_, ?_⟩
    · rw [List.length_cons, hlength, hparams]
    · obtain ⟨first, further, heq⟩ := List.exists_cons_of_length_eq_add_one hparams
      refine ⟨first, further, heq, ?_, fun level s => ?_⟩
      · rw [heq, List.length_cons] at hparams
        omega
      · rw [heq, bindParams]
  case never =>
    intro fuel node name expected given hresult
    exact (hm.proper_eval fuel node).proper _ hresult
  case run =>
    intro fuel source name expected given hfailed
    unfold Machine.runWith at hfailed
    split at hfailed
    · cases hfailed
    · next program _ =>
      have hproper := hm.proper_runProgram fuel program
      split at hfailed
      · cases hfailed
      · next e _ hresult =>
        cases hfailed
        exact hproper.proper _ (congrArg Outcome.result hresult)
      · cases hfailed

/-- The method of the cell takes one argument, and gets one. -/
theorem argumentsFit_cell :
    Reachable OneCell.machine ∧
      callMethod (eval 9) ⟨0⟩ ⟨"f", [.var "b"]⟩ OneCell.machine
        = runMethod (eval 9) ⟨0⟩ OneCell.put [.object ⟨0⟩] OneCell.machine ∧
      OneCell.put.Takes [.object ⟨0⟩] ∧
      ∀ name expected given, (eval 9 (.method (.named "b") ⟨"f", [.var "b"]⟩ [])
        OneCell.machine).result ≠ .error (.argumentCount name expected given) := by
  have hfound : (OneCell.machine.instanceAt ⟨0⟩).method? ⟨"f", 1⟩
      = some (OneCell.put, .exposed, ⟨⟨1⟩, ⟨1⟩, 0⟩) := rfl
  have hvalues : evalArgs (eval 9) [.var "b"] OneCell.machine
      = ⟨.ok [.object ⟨0⟩], OneCell.machine⟩ := rfl
  have hfits := argumentsFit (.reachable OneCell.reachable)
  have hcall : callMethod (eval 9) ⟨0⟩ ⟨"f", [.var "b"]⟩ OneCell.machine
      = runMethod (eval 9) ⟨0⟩ OneCell.put [.object ⟨0⟩] OneCell.machine ∧
        OneCell.put.Takes [.object ⟨0⟩] := hfits.method hfound hvalues
  exact ⟨OneCell.reachable, hcall.1, hcall.2, hfits.never 9 _⟩

end BoxScript
