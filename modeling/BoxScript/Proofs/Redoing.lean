import BoxScript.Proofs.Recoding

/-!
# The evaluator on code that stands for other code

If code stands for other code, it does what that code does, but it may take more fuel, and how much
more is not bounded by the fuel alone. So a computation is compared with a family of computations,
one for each amount of fuel: `Redoes S x ys` says that if `x` ends then all of `ys` from some fuel
on end in the same way, on machines that are alike but for the code on them. The rules of the
evaluator are gone through once (`redoes_evalNode`). What is left to know of `S` is that it relates
nodes of one kind, or nodes that redo each other for another reason (`redoes_eval`).
-/

namespace BoxScript

variable {S : Node → Node → Prop} {α β : Type}

/-- The computation has not ended, or those with enough fuel end with the same result, on one
machine that is like its own. -/
inductive Matched (S : Node → Node → Prop) : Outcome α → (Nat → Outcome α) → Prop
  | unfinished {m : Machine} {ys : Nat → Outcome α} : Matched S ⟨.unfinished, m⟩ ys
  | settled {result : Result α} {m m' : Machine} {ys : Nat → Outcome α} (h : m.Recoded S m')
    (enough : Nat) (hys : ∀ fuel, enough ≤ fuel → ys fuel = ⟨result, m'⟩) :
    Matched S ⟨result, m⟩ ys

/-- What `x` does is done again by `ys` on all machines that are alike. -/
def Redoes (S : Node → Node → Prop) (x : Exec α) (ys : Nat → Exec α) : Prop :=
  ∀ ⦃m m'⦄, m.Recoded S m' → Matched S (x m) (ys · m')

theorem Matched.of {result : Result α} {m m' : Machine} (h : m.Recoded S m') :
    Matched S ⟨result, m⟩ fun _ => ⟨result, m'⟩ := .settled h 0 fun _ _ => rfl

/-- Only large amounts of fuel matter. -/
theorem Matched.congr {o : Outcome α} {ys zs : Nat → Outcome α} (h : Matched S o ys) (from_ : Nat)
    (hsame : ∀ fuel, from_ ≤ fuel → zs fuel = ys fuel) : Matched S o zs := by
  cases h with
  | unfinished => exact .unfinished
  | settled h enough hys =>
    refine .settled h (max from_ enough) fun fuel hfuel => ?_
    rw [hsame fuel (by omega), hys fuel (by omega)]

/-- It does not matter that some fuel is burnt first. -/
theorem Matched.shift {o : Outcome α} {ys zs : Nat → Outcome α} (h : Matched S o ys)
    (hshift : ∀ fuel, zs (fuel + 1) = ys fuel) : Matched S o zs := by
  cases h with
  | unfinished => exact .unfinished
  | settled h enough hys =>
    refine .settled h (enough + 1) fun fuel hfuel => ?_
    obtain ⟨fuel, rfl⟩ : ∃ k, fuel = k + 1 := ⟨fuel - 1, by omega⟩
    rw [hshift, hys fuel (by omega)]

/-! ## Putting computations together -/

theorem redoes_pure (a : α) : Redoes S (pure a : Exec α) fun _ => pure a := fun _ _ h => .of h

theorem redoes_fail (e : RuntimeError) : Redoes S (Exec.fail e : Exec α) fun _ => Exec.fail e :=
  fun _ _ h => .of h

/-- A run that is out of fuel is redone by anything, since it says nothing. -/
theorem redoes_unfinished (ys : Nat → Exec α) : Redoes S (Exec.unfinished : Exec α) ys :=
  fun _ _ _ => .unfinished

theorem redoes_ofExcept (x : Except RuntimeError α) :
    Redoes S (Exec.ofExcept x) fun _ => Exec.ofExcept x := by
  intro m m' h
  cases x <;> exact .of h

/-- What follows a matched computation goes on from related machines, with fuel enough for both. -/
theorem Matched.bind {x : Exec α} {ys : Nat → Exec α} {f : α → Exec β} {gs : Nat → α → Exec β}
    {m m' : Machine} (h : Matched S (x m) (ys · m')) (hf : ∀ a, Redoes S (f a) (gs · a)) :
    Matched S ((x >>= f) m) fun fuel => (ys fuel >>= gs fuel) m' := by
  rw [Exec.bind_apply]
  generalize x m = o at h
  cases h with
  | unfinished => exact .unfinished
  | @settled result n n' _ hn enough hys =>
    have hbind : ∀ fuel, enough ≤ fuel → (ys fuel >>= gs fuel) m'
        = ((fun _ => ⟨result, n'⟩ : Exec α) >>= gs fuel) m' := by
      intro fuel hfuel
      have hy : ys fuel m' = ⟨result, n'⟩ := hys fuel hfuel
      rw [Exec.bind_apply, hy]
      rfl
    cases result with
    | ok a => exact (hf a hn).congr enough hbind
    | error e => exact .settled hn enough hbind
    | unfinished => exact .unfinished

theorem Redoes.bind {x : Exec α} {ys : Nat → Exec α} {f : α → Exec β} {gs : Nat → α → Exec β}
    (hx : Redoes S x ys) (hf : ∀ a, Redoes S (f a) (gs · a)) :
    Redoes S (x >>= f) fun fuel => ys fuel >>= gs fuel := fun _ _ h => (hx h).bind hf

/-- Results that are not the same but related. -/
theorem redoes_ofExcept_bind {γ : Type} {R : α → γ → Prop} {x : Except RuntimeError α}
    {y : Except RuntimeError γ} {f : α → Exec β} {gs : Nat → γ → Exec β} (h : Concur R x y)
    (hf : ∀ a c, R a c → Redoes S (f a) (gs · c)) :
    Redoes S (Exec.ofExcept x >>= f) fun fuel => Exec.ofExcept y >>= gs fuel := by
  intro m m' hm
  cases h with
  | error e => exact .of hm
  | ok hac => exact hf _ _ hac hm

/-- What follows a look at the machine is compared for what is seen there. -/
theorem redoes_look_bind {γ : Type} {f : Machine → α} {f' : Machine → γ} {g : α → Exec β}
    {gs : Nat → γ → Exec β}
    (h : ∀ {m m'}, m.Recoded S m' → Matched S (g (f m) m) fun fuel => gs fuel (f' m') m') :
    Redoes S (Exec.look f >>= g) fun fuel => Exec.look f' >>= gs fuel := fun _ _ => h

/-- A look at something that is the same. -/
theorem redoes_look_eq_bind {f : Machine → α} {g : α → Exec β} {gs : Nat → α → Exec β}
    (hf : ∀ {m m'}, m.Recoded S m' → f m' = f m) (hg : ∀ a, Redoes S (g a) (gs · a)) :
    Redoes S (Exec.look f >>= g) fun fuel => Exec.look f >>= gs fuel := by
  refine redoes_look_bind fun {m m'} h => ?_
  rw [hf h]
  exact hg _ h

/-- What does not depend on fuel at all. -/
theorem redoes_const {x y : Exec α}
    (h : ∀ {m m'}, m.Recoded S m' → Matched S (x m) fun _ => y m') : Redoes S x fun _ => y :=
  fun _ _ => h

theorem redoes_update {f f' : Machine → Machine}
    (hf : ∀ {m m'}, m.Recoded S m' → (f m).Recoded S (f' m')) :
    Redoes S (Exec.update f) fun _ => Exec.update f' := fun _ _ h => .of (hf h)

/-- The way out of something is taken in both, whatever the result. -/
theorem Matched.closing {body : Exec α} {bodies : Nat → Exec α} {m m' : Machine}
    (h : Matched S (body m) (bodies · m')) {leave leave' : Machine → Machine}
    (hleave : ∀ {n n'}, n.Recoded S n' → (leave n).Recoded S (leave' n')) :
    Matched S (Exec.closing body leave m) fun fuel => Exec.closing (bodies fuel) leave' m' := by
  unfold Exec.closing
  generalize body m = o at h
  cases h with
  | unfinished => exact .unfinished
  | settled h enough hys =>
    refine .settled (hleave h) enough fun fuel hfuel => ?_
    have hbody : bodies fuel m' = _ := hys fuel hfuel
    rw [hbody]

theorem Redoes.inBlock {body : Exec α} {bodies : Nat → Exec α} (h : Redoes S body bodies) :
    Redoes S (Exec.inBlock body) fun fuel => Exec.inBlock (bodies fuel) := by
  intro m m' hm
  unfold Exec.inBlock
  dsimp only
  rw [hm.level]
  exact (h (hm.atLevel _)).closing fun hn => hn.closeTo _

theorem Redoes.asClause {body : Exec α} {bodies : Nat → Exec α} (h : Redoes S body bodies) :
    Redoes S (Exec.asClause body) fun fuel => Exec.asClause (bodies fuel) := by
  intro m m' hm
  unfold Exec.asClause
  dsimp only
  rw [hm.inClause]
  exact (h (hm.withClause true)).closing fun hn => hn.withClause _

theorem Redoes.asCall {body : Exec α} {bodies : Nat → Exec α} (h : Redoes S body bodies) :
    Redoes S (Exec.asCall body) fun fuel => Exec.asCall (bodies fuel) := by
  intro m m' hm
  unfold Exec.asCall
  simp only [hm.depth, Exec.deepening_eq]
  split
  · exact .of hm
  · refine (h (hm.withDepth _)).closing fun {n n'} hn => ?_
    rw [hn.depth]
    exact hn.withDepth _

/-! ## Lists of nodes -/

section Evaluator

variable {ev : Evaluator} {evs : Nat → Evaluator}
  (hev : ∀ {n n'}, S n n' → Redoes S (ev n) (evs · n'))

include hev

theorem redoes_evalArgs {args args' : List Node} (h : List.Forall₂ S args args') :
    Redoes S (evalArgs ev args) fun fuel => evalArgs (evs fuel) args' := by
  have key : ∀ done, Redoes S (evalArgsFrom ev done args : Exec (List Value))
      fun fuel => evalArgsFrom (evs fuel) done args' := by
    induction h with
    | nil => exact fun done => redoes_pure done.reverse
    | cons hn _ ih =>
      intro done
      simp only [Contract.evalArgsFrom_cons]
      exact (hev hn).bind fun v => ih (v :: done)
  exact key []

/-- A block asks for signals after every statement, and both machines have the same ones. -/
theorem redoes_runBlock {nodes nodes' : List Node} (h : List.Forall₂ S nodes nodes') :
    Redoes S (runBlock ev nodes : Exec Bool) fun fuel => runBlock (evs fuel) nodes' := by
  induction h with
  | nil => exact redoes_pure false
  | cons hn _ ih =>
    simp only [Contract.runBlock_cons]
    refine (hev hn).bind fun _ => redoes_look_eq_bind Machine.Recoded.pending fun stops => ?_
    cases stops with
    | true => exact redoes_pure true
    | false => exact ih

theorem redoes_runProgram {program program' : Program} (h : List.Forall₂ S program program') :
    Redoes S (runProgram ev program : Exec Unit) fun fuel => runProgram (evs fuel) program' := by
  induction h with
  | nil => exact redoes_pure ()
  | cons hn _ ih =>
    simp only [Tracked.runProgram_cons]
    refine (hev hn).bind fun _ => redoes_look_eq_bind Machine.Recoded.pending fun stops => ?_
    cases stops with
    | true => exact redoes_update fun h => h.noteSignal.dropSignal
    | false => exact ih

/-! ## Branches, loops and calls -/

theorem redoes_holds {c c' : Node} (h : S c c') :
    Redoes S (holds ev c) fun fuel => holds (evs fuel) c' :=
  (hev h).bind fun v => (redoes_ofExcept v.asInt).bind fun _ => redoes_pure _

omit hev in
/-- The rounds of a loop are counted by fuel as well, of which some may be burnt already. -/
theorem redoes_repeatWhile {test body : Exec Bool} {step : Exec Unit}
    {tests bodies : Nat → Exec Bool} {steps : Nat → Exec Unit} (htest : Redoes S test tests)
    (hbody : Redoes S body bodies) (hstep : Redoes S step steps) (rounds : Nat) :
    Redoes S (repeatWhile test body step rounds : Exec Unit)
      fun fuel => repeatWhile (tests fuel) (bodies fuel) (steps fuel) fuel := by
  -- the two loops count their own fuel, so a round that is past costs the other loop one, and the
  -- statement is made for any number of rounds past
  have key : ∀ burnt, Redoes S (repeatWhile test body step rounds : Exec Unit)
      fun fuel => repeatWhile (tests fuel) (bodies fuel) (steps fuel) (fuel - burnt) := by
    induction rounds with
    | zero => exact fun burnt => redoes_unfinished _
    | succ rounds ih =>
      intro burnt m m' h
      have hround : Redoes S (repeatWhile test body step (rounds + 1) : Exec Unit) fun fuel =>
          (repeatWhile (tests fuel) (bodies fuel) (steps fuel) (fuel - (burnt + 1) + 1) :
            Exec Unit) := by
        simp only [Contract.repeatWhile_succ]
        refine htest.bind fun goesOn => ?_
        cases goesOn with
        | false => exact redoes_pure ()
        | true =>
          refine hbody.bind fun stops => ?_
          cases stops with
          | true => exact redoes_pure ()
          | false => exact hstep.bind fun _ => ih (burnt + 1)
      refine (hround h).congr (burnt + 1) fun fuel hfuel => ?_
      dsimp only
      rw [show fuel - burnt = fuel - (burnt + 1) + 1 by omega]
  exact key 0

theorem redoes_blockBody (rounds : Nat) {n n' : Node} (h : n.Recoded S n') :
    Redoes S (blockBody ev rounds n) fun fuel => blockBody (evs fuel) fuel n' := by
  have hblock : ∀ {nodes nodes' : List Node}, List.Forall₂ S nodes nodes' →
      Redoes S (runBlock ev nodes : Exec Bool) fun fuel => runBlock (evs fuel) nodes' :=
    redoes_runBlock hev
  have hclause : ∀ {c c'}, S c c' → Redoes S (Exec.asClause (ev c >>= fun _ => pure ()))
      fun fuel => Exec.asClause (evs fuel c' >>= fun _ => pure ()) :=
    fun hc => ((hev hc).bind fun _ => redoes_pure ()).asClause
  cases h with
  | ifThen hc hyes =>
    refine (redoes_holds hev hc).bind fun holds => ?_
    cases holds with
    | true => exact (hblock hyes).bind fun _ => redoes_pure ()
    | false => exact redoes_pure ()
  | ifElse hc hyes hno =>
    refine (redoes_holds hev hc).bind fun holds => ?_
    cases holds with
    | true => exact (hblock hyes).bind fun _ => redoes_pure ()
    | false => exact (hblock hno).bind fun _ => redoes_pure ()
  | whileDo hc hbody =>
    exact redoes_repeatWhile (redoes_holds hev hc) (hblock hbody) (redoes_pure ()) rounds
  | forDo hi hc hs hbody =>
    exact (hclause hi).bind fun _ =>
      redoes_repeatWhile (redoes_holds hev hc) (hblock hbody) (hclause hs) rounds
  | _ => exact redoes_pure ()

/-- The body of a call runs on the parameters that both routines have alike. -/
theorem redoes_runBody {r r' : Routine} (h : r.Recoded S r') (args : List Value) :
    Redoes S (runBody ev r args) fun fuel => runBody (evs fuel) r' args := by
  cases h with
  | of name params hbody =>
    unfold runBody
    by_cases hcount : args.length ≠ params.length
    · simp only [if_pos hcount]
      exact redoes_fail _
    · simp only [if_neg hcount]
      refine (redoes_update fun {m m'} h => ?_).bind fun _ =>
        (redoes_runBlock hev hbody).bind fun returned => ?_
      · rw [h.level]
        exact h.updateScopes _
      · cases returned with
        | true =>
          exact redoes_look_eq_bind Machine.Recoded.signal fun v =>
            (redoes_update fun h => h.dropSignal).bind fun _ => redoes_pure v
        | false => exact redoes_fail _

theorem redoes_invoke {r r' : Routine} (h : r.Recoded S r') (args : List Value) :
    Redoes S (invoke ev r args) fun fuel => invoke (evs fuel) r' args := by
  refine Redoes.asCall fun m m' hm => ?_
  have hbody := redoes_runBody hev h args ((hm.atLevel (m.context.level + 1)).withClause false)
  have hleft := hbody.closing fun hn =>
    (hn.closeTo m.context.level).withClause m.context.inClause
  dsimp only
  rw [hm.level, hm.inClause]
  exact hleft

/-- A plain call finds the functions of one name and number of arguments, which are related. -/
theorem redoes_callFunction (name : String) {args args' : List Node}
    (h : List.Forall₂ S args args') :
    Redoes S (callFunction ev name args) fun fuel => callFunction (evs fuel) name args' := by
  refine redoes_look_bind fun {m m'} hm => ?_
  have hfound := hm.functionTable.get? ⟨name, args.length⟩
  rw [← h.length_eq]
  generalize m.functions.get? _ = found at hfound
  generalize m'.functions.get? _ = found' at hfound
  cases hfound with
  | none => exact redoes_fail _ hm
  | some hr => exact ((redoes_evalArgs hev h).bind fun args => redoes_invoke hev hr args) hm

/-! ## Definitions and instances -/

omit hev in
theorem redoes_boxNamed_bind (name : String) {f : BoxDef → Exec α} {gs : Nat → BoxDef → Exec α}
    (hf : ∀ d d', d.Recoded S d' → Redoes S (f d) (gs · d')) :
    Redoes S (boxNamed name >>= f) fun fuel => boxNamed name >>= gs fuel := by
  unfold boxNamed
  simp only [bind_assoc]
  refine redoes_look_bind fun {m m'} hm => ?_
  have hfound := hm.boxTable.get? name
  generalize m.boxes.get? name = found at hfound
  generalize m'.boxes.get? name = found' at hfound
  cases hfound with
  | none => exact .of hm
  | some hd => exact hf _ _ hd hm

omit hev in
theorem redoes_registerBox {d d' : BoxDef} (h : d.Recoded S d') :
    Redoes S (registerBox d) fun _ => registerBox d' := by
  intro m m' hm
  -- once the base is found, the completed definitions are related, and both are written under the
  -- same name
  have hput : ∀ {base base' : Option BoxDef}, Option.Rel (BoxDef.Recoded S) base base' →
      Redoes S (Exec.ofExcept (d.complete base) >>= fun d =>
          Exec.update fun m => m.updateBoxesAt m.context.boxes (·.insert d.name d))
        fun _ => Exec.ofExcept (d'.complete base') >>= fun d =>
          Exec.update fun m => m.updateBoxesAt m.context.boxes (·.insert d.name d) := by
    refine fun hb => redoes_ofExcept_bind (h.complete hb) fun w w' hw => ?_
    refine redoes_update fun {m m'} hm => ?_
    rw [hm.table, hw.name]
    exact hm.updateBoxesAt _ fun hd => hd.insert _ hw
  have hfound := hm.boxTable.get? d.name
  rcases const_or_open m.boxes d.name with ⟨old, hold, hconst⟩ | hopen
  · generalize hold' : m'.boxes.get? d.name = found at hfound
    rw [hold] at hfound
    cases hfound with
    | some hrelated =>
      rw [registerBox_of_const hold hconst]
      simp only [registerBox_of_const (h.name ▸ hold') (hrelated.isConst.trans hconst),
        hrelated.name]
      exact .of hm
  -- the other table has a const definition under the name only if this one has
  · have hopen' : ∀ old, m'.boxes.get? d'.name = some old → old.isConst = false := by
      intro old' hold'
      rw [h.name] at hold'
      generalize hold : m.boxes.get? d.name = found at hfound
      rw [hold'] at hfound
      cases hfound with
      | some hrelated => rw [hrelated.isConst, hopen _ hold]
    simp only [registerBox_of_open hopen, registerBox_of_open hopen', h.base]
    cases d.base with
    | none => exact hput .none hm
    | some name =>
      have hbase := hm.boxTable.get? name
      dsimp only [Option.elim]
      generalize m.boxes.get? name = base at hbase
      generalize m'.boxes.get? name = base' at hbase
      cases hbase with
      | none => exact .of hm
      | some hb => exact hput (.some hb) hm

/-- Fields hold no code. -/
theorem redoes_makeFieldsFrom (made : List Slot) {specs specs' : List FieldSpec}
    (h : List.Forall₂ (FieldSpec.Recoded S) specs specs') :
    Redoes S (makeFieldsFrom ev made specs) fun fuel => makeFieldsFrom (evs fuel) made specs' := by
  induction h generalizing made with
  | nil => exact redoes_pure made.reverse
  | @cons f f' specs specs' hf _ ih =>
    obtain ⟨name, init, access⟩ := f
    obtain ⟨name', init', access'⟩ := f'
    obtain ⟨hname, hinit, haccess⟩ := hf
    dsimp only at hname hinit haccess
    subst hname haccess
    cases hinit with
    | expr hn => exact (hev hn).bind fun v => ih (.field name' v access' :: made)
    | fixed v => exact ih (.field name' v access' :: made)

section Reflexive

variable (hS : ∀ n, S n n)

include hS

/-- An instance is made of related definitions, which have the same names in the same order. -/
theorem redoes_instantiate (name : String) :
    Redoes S (instantiate ev name) fun fuel => instantiate (evs fuel) name := by
  refine redoes_boxNamed_bind name fun d d' hd => ?_
  rw [hd.isAbstract]
  cases d.isAbstract with
  | true => exact redoes_fail _
  | false =>
    refine (redoes_makeFieldsFrom hev [] hd.fields).bind fun fields => ?_
    refine redoes_const fun {m m'} hm => ?_
    obtain ⟨hresult, hmade⟩ :=
      hm.allocate hd fields (List.forall₂_same.2 fun slot _ => Slot.recoded_self hS slot)
    have hallocate : allocate d' fields m'
        = ⟨(allocate d fields m).result, (allocate d' fields m').machine⟩ :=
      congrArg (Outcome.mk · _) hresult
    rw [hallocate]
    exact .of hmade

omit hev hS in
theorem redoes_lookupVariable (name : String) :
    Redoes S (lookupVariable name) fun _ => lookupVariable name := by
  refine redoes_const fun {m m'} h => ?_
  unfold lookupVariable
  rw [h.store, h.level]
  exact redoes_ofExcept _ h

omit hev hS in
theorem redoes_instanceIn (holder : String) :
    Redoes S (instanceIn holder) fun _ => instanceIn holder :=
  (redoes_lookupVariable holder).bind fun v => redoes_ofExcept v.asObject

omit hev hS in
theorem redoes_readField (holder field : String) :
    Redoes S (readField holder field) fun _ => readField holder field := by
  refine (redoes_instanceIn holder).bind fun o => redoes_look_bind fun {m m'} h => ?_
  rw [(h.instanceAt o).field?, (h.instanceAt o).box]
  rcases (m.instanceAt o).field? field with _ | ⟨value, access⟩
  · exact .of h
  · cases access <;> exact .of h

omit hS in
theorem redoes_writeField (holder field : String) {value value' : Node} (hv : S value value') :
    Redoes S (writeField ev holder field value)
      fun fuel => writeField (evs fuel) holder field value' := by
  refine (redoes_instanceIn holder).bind fun o => redoes_look_bind fun {m m'} h => ?_
  rw [(h.instanceAt o).field?, (h.instanceAt o).box]
  rcases (m.instanceAt o).field? field with _ | ⟨_, access⟩
  · exact .of h
  · cases access with
    | exposed =>
      exact ((hev hv).bind fun v => redoes_update fun h =>
        h.updateInstance o fun _ _ hi => hi.setField field v) h
    | guarded => exact .of h

/-! ## Methods -/

omit hS in
theorem redoes_runMethod (o : Handle) {r r' : Routine} (hr : r.Recoded S r') (args : List Value) :
    Redoes S (runMethod ev o r args) fun fuel => runMethod (evs fuel) o r' args := by
  refine Redoes.asCall fun m m' h => ?_
  -- the slots of the two instances differ in their routines only, so the locals are the same
  have hfound := (h.instanceAt o).method? r.signature
  rw [hr.signature]
  generalize (m.instanceAt o).method? r.signature = found at hfound
  generalize (m'.instanceAt o).method? r.signature = found' at hfound
  cases hfound with
  | none => exact .of h
  | @some x x' hx =>
    obtain ⟨_, access, locals⟩ := x
    obtain ⟨_, access', locals'⟩ := x'
    obtain ⟨-, hlocals⟩ := hx
    injection hlocals with _ hlocals
    subst hlocals
    have hentered := h.enterMethod o r.signature locals' (max m.context.level locals'.level + 1)
    have hleft := (redoes_runBody hev hr args hentered).closing fun hn =>
      hn.leaveMethod o r.signature locals' m.context (max m.context.level locals'.level)
        locals'.level
    dsimp only
    rw [h.context]
    exact hleft

omit hS in
theorem redoes_callMethod (o : Handle) {call call' : Invocation} (hcall : call.Recoded S call') :
    Redoes S (callMethod ev o call) fun fuel => callMethod (evs fuel) o call' := by
  cases hcall with
  | @of name args args' hargs =>
    refine redoes_look_bind fun {m m'} h => ?_
    have hfound := (h.instanceAt o).method? ⟨name, args.length⟩
    dsimp only
    rw [← hargs.length_eq]
    generalize (m.instanceAt o).method? _ = found at hfound
    generalize (m'.instanceAt o).method? _ = found' at hfound
    cases hfound with
    | none => exact .of h
    | @some x x' hx =>
      obtain ⟨r, access, locals⟩ := x
      obtain ⟨r', access', locals'⟩ := x'
      obtain ⟨hr, hsame⟩ := hx
      injection hsame with haccess
      subst haccess
      cases access' with
      | guarded => exact .of h
      | exposed =>
        exact ((redoes_evalArgs hev hargs).bind fun args => redoes_runMethod hev o hr args) h

/-! ## Calls in a row -/

theorem redoes_chainFrom (table : Handle) (previous : Value) {calls calls' : List Invocation}
    (hcalls : List.Forall₂ (Invocation.Recoded S) calls calls') :
    Redoes S (chainFrom ev table previous calls)
      fun fuel => chainFrom (evs fuel) table previous calls' := by
  induction hcalls generalizing previous with
  | nil => cases previous <;> exact redoes_pure _
  | cons hcall _ ih =>
    cases previous with
    | object o =>
      have hname : Redoes S nextChainName fun _ => nextChainName := by
        refine redoes_const fun {m m'} h => ?_
        unfold nextChainName
        rw [h.chained]
        exact .of (h.withChained _)
      refine hname.bind fun name m m' h => ?_
      refine Matched.closing ?_ fun hn => hn.updateBoxesAt table fun hd => hd.erase name
      refine redoes_look_bind (fun {m m'} h => ?_) h
      have hcopy := (h.instanceAt o).toBoxDef name
      exact ((redoes_registerBox hcopy).bind fun _ =>
        (redoes_instantiate hev hS name).bind fun copy =>
          (redoes_callMethod hev copy hcall).bind fun v => ih v) h
    | int | str | array | void => exact redoes_fail _

theorem redoes_callChain (receiver : Receiver) {first first' : Invocation}
    {further further' : List Invocation} (hfirst : first.Recoded S first')
    (hfurther : List.Forall₂ (Invocation.Recoded S) further further') :
    Redoes S (callChain ev receiver first further)
      fun fuel => callChain (evs fuel) receiver first' further' := by
  refine redoes_look_eq_bind Machine.Recoded.table fun table => Redoes.bind ?_ fun o =>
    (redoes_callMethod hev o hfirst).bind fun v => redoes_chainFrom hev hS table v hfurther
  cases receiver with
  | named holder => exact redoes_instanceIn holder
  | created box => exact redoes_instantiate hev hS box

/-! ## Extensions -/

omit hev hS in
theorem redoes_ofInstance (name : String) (o : Handle) (args : List Value) :
    Redoes S (ofInstance name o args) fun _ => ofInstance name o args := by
  unfold ofInstance
  -- what is asked of an instance is its fields, its signatures and its kind, and none of these
  -- tells the two instances apart
  split
  · refine (redoes_ofExcept _).bind fun box => redoes_boxNamed_bind box fun d d' hd => ?_
    refine redoes_look_bind fun {m m'} h => ?_
    rw [(h.instanceAt o).fits hd]
    exact .of h
  · exact redoes_fail _
  · refine (redoes_ofExcept _).bind fun _ => (redoes_ofExcept _).bind fun field => ?_
    refine (redoes_ofExcept _).bind fun guardedToo => redoes_look_bind fun {m m'} h => ?_
    rw [(h.instanceAt o).fieldNames]
    exact .of h
  · exact redoes_fail _
  · refine (redoes_ofExcept _).bind fun _ => (redoes_ofExcept _).bind fun function => ?_
    refine (redoes_ofExcept _).bind fun arity => (redoes_ofExcept _).bind fun guardedToo => ?_
    refine redoes_look_bind fun {m m'} h => ?_
    rw [(h.instanceAt o).signatures]
    exact .of h
  · exact redoes_fail _
  · refine (redoes_ofExcept _).bind fun field => redoes_look_bind fun {m m'} h => ?_
    rw [(h.instanceAt o).field?]
    split
    · exact .of h
    · exact ((redoes_update fun h => h.updateInstance o fun _ _ hi => hi.setField _ _).bind
        fun _ => redoes_pure _) h
  · exact redoes_fail _
  · exact redoes_pure none

omit hev hS in
/-- A built-in function reads the instance only where its receiver is one. -/
theorem redoes_callBuiltin (name : String) (receiver : Value) (args : List Value) :
    Redoes S (callBuiltin name receiver args) fun _ => callBuiltin name receiver args := by
  rw [callBuiltin_eq]
  refine Redoes.bind ?_ fun answer => ?_
  · cases receiver with
    | array items =>
      refine redoes_look_bind fun {m m'} h => ?_
      rw [h.text]
      exact redoes_ofExcept _ h
    | str | int => exact redoes_ofExcept _
    | object o => exact redoes_ofInstance name o args
    | void => exact redoes_pure none
  · cases answer with
    | none => exact redoes_fail _
    | some v => exact redoes_pure v

omit hev hS in
/-- Declared extensions are found by the same names and values. -/
theorem declaredFor?_related (name : String) (receiver : Value) (arity : Nat) {m m' : Machine}
    (h : m.Recoded S m') : Option.Rel (Extension.Recoded S) (declaredFor? name receiver arity m)
      (declaredFor? name receiver arity m') := by
  have hfound := h.extensionTable.get? name
  unfold declaredFor?
  generalize m.extensions.get? name = found at hfound
  generalize m'.extensions.get? name = found' at hfound
  cases hfound with
  | none => exact .none
  | @some e e' he =>
    have harity : e'.arity = e.arity := by
      unfold Extension.arity
      rw [he.routine.params_eq]
    simp only [Option.filter_some, he.kind, harity]
    split
    · exact .some he
    · exact .none

omit hS in
theorem redoes_callExtension {target target' : Node} (ht : S target target') (name : String)
    {args args' : List Node} (hargs : List.Forall₂ S args args') :
    Redoes S (callExtension ev target name args)
      fun fuel => callExtension (evs fuel) target' name args' := by
  refine (hev ht).bind fun receiver => ?_
  cases receiver.isVoid with
  | true => exact redoes_pure _
  | false =>
    simp only [Bool.false_eq_true, if_false]
    split
    · exact redoes_pure _
    · refine redoes_look_bind fun {m m'} h => ?_
      have hfound := declaredFor?_related (Text.toLower name) receiver args.length h
      rw [← hargs.length_eq]
      generalize declaredFor? _ _ _ m = found at hfound
      generalize declaredFor? _ _ _ m' = found' at hfound
      cases hfound with
      | none =>
        exact ((redoes_evalArgs hev hargs).bind fun args =>
          redoes_callBuiltin _ receiver args) h
      | some he =>
        exact ((redoes_evalArgs hev hargs).bind fun args =>
          redoes_invoke hev he.routine _) h

omit hev hS in
theorem extensionRoutine_related {d d' : BoxDef} (h : d.Recoded S d') (box function : String)
    (arity : Int64) : Concur (Routine.Recoded S) (extensionRoutine d box function arity)
      (extensionRoutine d' box function arity) := by
  -- the search goes by name and number of parameters, which related functions share
  have hwanted : ∀ {f f' : MethodSpec}, f.Recoded S f' →
      (f'.routine.name == function && (f'.routine.params.length : Int) == arity.toInt)
        = (f.routine.name == function && (f.routine.params.length : Int) == arity.toInt) :=
    fun hf => by rw [hf.routine.name_eq, hf.routine.params_eq]
  have hfound := find?_related (R := MethodSpec.Recoded S) hwanted h.methods
  unfold extensionRoutine
  rw [h.isConst, h.isAbstract]
  cases d.isConst with
  | false => exact .error _
  | true =>
    cases d.isAbstract with
    | true => exact .error _
    | false =>
      generalize d.methods.find? _ = found at hfound
      generalize d'.methods.find? _ = found' at hfound
      cases hfound with
      | none => exact .error _
      | @some f f' hf =>
        dsimp only
        rw [hf.access]
        cases f.access with
        | guarded => exact .error _
        | exposed => exact .ok hf.routine

omit hS in
theorem redoes_declareExtension {kind kind' box box' function function' arity arity' : Node}
    (hkind : S kind kind') (hbox : S box box') (hfunction : S function function')
    (harity : S arity arity') : Redoes S (declareExtension ev kind box function arity)
      fun fuel => declareExtension (evs fuel) kind' box' function' arity' := by
  refine (hev hkind).bind fun kind => (hev hbox).bind fun box => ?_
  refine (hev hfunction).bind fun function => (hev harity).bind fun arity => ?_
  split
  · next kindName box function arity =>
    dsimp only
    by_cases hreceiver : arity < 1
    · simp only [if_pos hreceiver]
      exact redoes_fail _
    · simp only [if_neg hreceiver]
      cases Kind.ofName? kindName with
      | none => exact redoes_fail _
      | some kind =>
        refine redoes_boxNamed_bind box fun d d' hd => ?_
        refine redoes_ofExcept_bind (extensionRoutine_related hd box function arity)
          fun r r' hr => ?_
        exact redoes_update fun h => h.updateExtensions fun he => he.insert _ ⟨rfl, hr⟩
  · exact redoes_fail _

/-! ## Files, scripts and the console -/

omit hS in
theorem redoes_evalPath {path path' : Node} (h : S path path') :
    Redoes S (evalPath ev path) fun fuel => evalPath (evs fuel) path' := by
  refine (hev h).bind fun v => ?_
  cases v with
  | str path => exact redoes_pure path
  | int | array | object | void => exact redoes_fail _

omit hev hS in
theorem redoes_readFileText (path : String) :
    Redoes S (readFileText path) fun _ => readFileText path := by
  refine redoes_const fun {m m'} h => ?_
  unfold readFileText
  rw [h.files]
  split <;> exact .of h

omit hev hS in
theorem redoes_readInput : Redoes S readInput fun _ => readInput := by
  refine redoes_const fun {m m'} h => ?_
  unfold readInput
  rw [h.console]
  exact redoes_ofExcept _ (h.withConsole _)

theorem redoes_importSource (source : String) :
    Redoes S (importSource ev source) fun fuel => importSource (evs fuel) source := by
  intro m m' h
  cases hparse : Program.ofSource source with
  | error e =>
    simp only [importSource_of_error hparse]
    exact .of h
  | ok program =>
    simp only [importSource_of_ok hparse]
    have hself : List.Forall₂ S program program := List.forall₂_same.2 fun n _ => hS n
    have hrun := redoes_runProgram hev hself h.forked
    generalize runProgram ev program m.forked = o at hrun
    cases hrun with
    | unfinished => exact .unfinished
    | @settled result sub sub' _ hsub enough hys =>
      have hys : ∀ fuel, enough ≤ fuel → runProgram (evs fuel) program m'.forked = ⟨result, sub'⟩ :=
        hys
      -- a script that succeeds is merged, and one that fails is dropped; both forks were chained
      -- alike
      cases result with
      | ok _ =>
        refine .settled (h.merged hsub) enough fun fuel hfuel => ?_
        rw [hys fuel hfuel]
      | error e =>
        refine .settled (h.discarded hsub m.chained) enough fun fuel hfuel => ?_
        rw [hys fuel hfuel, h.chained]
      | unfinished => exact .unfinished

/-! ## All nodes -/

/-- **Nodes of one kind redo each other**, if the nodes below them do. -/
theorem redoes_evalNode (rounds : Nat) {n n' : Node} (h : n.Recoded S n') :
    Redoes S (evalNode ev rounds n) fun fuel => evalNode (evs fuel) fuel n' := by
  have done : ∀ {γ : Type} {x : Exec γ} {ys : Nat → Exec γ}, Redoes S x ys →
      Redoes S (x >>= fun _ => pure Value.void) fun fuel => ys fuel >>= fun _ => pure Value.void :=
    fun hx => hx.bind fun _ => redoes_pure Value.void
  have hpush : ∀ v, Redoes S (Exec.update (·.updateReturns (· ++ [v])))
      fun _ => Exec.update (·.updateReturns (· ++ [v])) :=
    fun v => redoes_update fun h => h.updateReturns _
  -- statements with a block are all entered and left alike, and their bodies are related above
  have hblock : n.isBlock = true → n'.isBlock = true → Redoes S (evalNode ev rounds n)
      fun fuel => evalNode (evs fuel) fuel n' := by
    intro hn hn'
    simp only [evalNode_of_isBlock hn, evalNode_of_isBlock hn']
    exact done (redoes_blockBody hev rounds h).inBlock
  cases h with
  | str s => exact redoes_pure _
  | var name => exact redoes_lookupVariable name
  | input => exact redoes_readInput
  | create box => exact (redoes_instantiate hev hS box).bind fun _ => redoes_pure _
  | field holder field => exact redoes_readField holder field
  | giveBackNone => exact done (hpush .void)
  | giveBack hv => exact (hev hv).bind fun v => done (hpush v)
  | negate hv => exact (hev hv).bind fun v => redoes_ofExcept _
  | binary op ha hb => exact (hev ha).bind fun a => (hev hb).bind fun b => redoes_ofExcept _
  | index ht hp => exact (hev ht).bind fun a => (hev hp).bind fun b => redoes_ofExcept _
  | array hitems => exact (redoes_evalArgs hev hitems).bind fun _ => redoes_pure _
  | call name hargs => exact redoes_callFunction hev name hargs
  | extension name ht hargs => exact redoes_callExtension hev ht name hargs
  | method receiver hfirst hfurther => exact redoes_callChain hev hS receiver hfirst hfurther
  | readLines hpath =>
    exact (redoes_evalPath hev hpath).bind fun path => (redoes_readFileText path).bind fun _ =>
      redoes_pure _
  | readText hpath =>
    exact (redoes_evalPath hev hpath).bind fun path => (redoes_readFileText path).bind fun _ =>
      redoes_pure _
  | fileExists hpath =>
    refine (redoes_evalPath hev hpath).bind fun path => ?_
    exact redoes_look_eq_bind (fun h => by rw [h.files]) fun _ => redoes_pure _
  | assign name hv =>
    refine (hev hv).bind fun v => done (redoes_update fun {m m'} h => ?_)
    dsimp only
    rw [h.level, h.inClause]
    exact h.updateScopes _
  | setField holder field hv => exact done (redoes_writeField hev holder field hv)
  | print newline hv =>
    refine (hev hv).bind fun v => done (redoes_update fun {m m'} h => ?_)
    dsimp only
    rw [h.text, h.console]
    exact h.withConsole _
  | raise hv =>
    refine (hev hv).bind fun v => redoes_look_bind fun {m m'} h => ?_
    rw [h.text]
    exact .of h
  | importScript hpath =>
    refine (redoes_evalPath hev hpath).bind fun path => ?_
    refine (redoes_readFileText path).bind fun source => ?_
    exact done (redoes_importSource hev hS source)
  | extend hkind hbox hfunction harity =>
    exact done (redoes_declareExtension hev hkind hbox hfunction harity)
  | ifThen | ifElse | whileDo | forDo => exact hblock rfl rfl
  | function hr =>
    refine done (redoes_update fun h => h.updateFunctions fun hd => ?_)
    rw [hr.signature]
    exact hd.insert _ hr
  | box hd => exact done (redoes_registerBox hd.ofDecl)

end Reflexive

end Evaluator

/-- **Code that stands for other code redoes it**, if all code stands for itself and nodes that
stand for each other are of one kind, or redo each other for another reason. -/
theorem redoes_eval (hS : ∀ n, S n n)
    (h : ∀ {n n'}, S n n' → n.Recoded S n' ∨ ∀ fuel, Redoes S (eval fuel n) (eval · n'))
    (fuel : Nat) {n n' : Node} (hn : S n n') : Redoes S (eval fuel n) (eval · n') := by
  induction fuel generalizing n n' with
  | zero => exact redoes_unfinished _
  | succ fuel ih =>
    rcases h hn with hsame | hother
    · exact fun m m' hm => (redoes_evalNode ih hS fuel hsame hm).shift fun _ => rfl
    · exact hother (fuel + 1)

/-! ## Programs -/

/-- Whatever run of `p` ends, `q` has one that ends with the same result, on machines that are alike
but for code that is related. It takes enough fuel, and more makes no difference. -/
def Program.RedoneBy (S : Node → Node → Prop) (p q : Program) : Prop :=
  ∀ ⦃m m' : Machine⦄, m.Recoded S m' → ∀ (fuel : Nat) (result : Result Unit) (n : Machine),
    runProgram (eval fuel) p m = ⟨result, n⟩ → result ≠ .unfinished →
      ∃ n', n.Recoded S n' ∧
        ∃ enough, ∀ more, enough ≤ more → runProgram (eval more) q m' = ⟨result, n'⟩

/-- A program whose statements are related one by one redoes the other. -/
theorem Program.redoneBy_of_related (hS : ∀ n, S n n)
    (h : ∀ {n n'}, S n n' → n.Recoded S n' ∨ ∀ fuel, Redoes S (eval fuel n) (eval · n'))
    {p q : Program} (hpq : List.Forall₂ S p q) : p.RedoneBy S q := by
  intro m m' hm fuel result n hrun hended
  have hmatched := redoes_runProgram (redoes_eval hS h fuel) hpq hm
  rw [hrun] at hmatched
  cases hmatched with
  | unfinished => exact absurd rfl hended
  | settled hn enough hys => exact ⟨_, hn, enough, hys⟩

end BoxScript
