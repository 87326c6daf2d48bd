import BoxScript.Proofs.Flow
import BoxScript.Proofs.Tables

/-!
# Return signals

A `return` pushes its value as a signal, and one stack of signals serves all the code that works on
the same context, so a signal that is overlooked or left behind would end some later body. The
theorems say that this does not happen, as long as no clause of a `for` executes a `return`: code
that starts without signals does what `flow` says, and at most one signal is pending at a time,
between the `return` and the end of its body.

`signalContract` is what expressions and simple statements keep: no signals before, none after, and
no stack changed on the whole heap. Statements that direct the run do not keep it, since they may
leave a signal; `Follows` relates them to their flow, rule by rule.
-/

namespace BoxScript

/-! ## Machines without signals -/

/-- No signal is pending, here or in the locals of any function. -/
structure Machine.Quiet (m : Machine) : Prop where
  active : m.returns = []
  slots : ∀ {h s r}, (m.instanceAt h).HasLocals s r → m.heap.returns.get r = []

theorem quiet_new (files : Files) (console : Console) : (Machine.new files console).Quiet where
  active := rfl
  slots hl := absurd hl not_hasLocals_new

/-- No signals before and after, and all stacks of signals as they were. -/
def signalContract : Contract where
  lax := True
  inv m := m.Formed IsExpr IsStatement ∧ m.Quiet
  rel m m' := grammarContract.rel m m' ∧ ∀ r, m'.heap.returns.get r = m.heap.returns.get r

section Steps

variable {m m' : Machine}

/-- Nothing is pending after a step that changes no stack, if the functions of new instances have
new stacks. -/
theorem Machine.Quiet.step (hq : m.Quiet)
    (hreturns : ∀ r, m'.heap.returns.get r = m.heap.returns.get r)
    (hcontext : m.heap.returns.get m'.context.returns = [])
    (hslots : ∀ {h s r}, (m'.instanceAt h).HasLocals s r →
      (m.instanceAt h).HasLocals s r ∨ m.heap.returns.size ≤ r.index) : m'.Quiet where
  active := (hreturns _).trans hcontext
  slots hl := by
    rw [hreturns]
    rcases hslots hl with hl | hnew
    · exact hq.slots hl
    · exact Pool.get_of_le hnew

/-- Where no stack changes, no signal comes up. -/
theorem signal_allows (hm : signalContract.inv m) (hform : grammarContract.Allows m m')
    (hreturns : ∀ r, m'.heap.returns.get r = m.heap.returns.get r)
    (hcontext : m'.context.returns = m.context.returns)
    (hslots : ∀ {h s r}, (m'.instanceAt h).HasLocals s r →
      (m.instanceAt h).HasLocals s r ∨ m.heap.returns.size ≤ r.index) :
    signalContract.Allows m m' :=
  ⟨⟨hform.inv, hm.2.step hreturns (hcontext ▸ hm.2.active) hslots⟩, hform.rel, hreturns⟩

/-- A step that leaves stacks and instances alone. -/
theorem signal_untouched (hm : signalContract.inv m) (hform : grammarContract.Allows m m')
    (hreturns : m'.heap.returns = m.heap.returns)
    (hinstances : m'.heap.instances = m.heap.instances)
    (hcontext : m'.context.returns = m.context.returns) : signalContract.Allows m m' := by
  refine signal_allows hm hform (fun r => by rw [hreturns]) hcontext fun {h s r} hl => .inl ?_
  unfold Machine.instanceAt at hl ⊢
  rwa [hinstances] at hl

theorem signal_lawful : signalContract.Lawful where
  refl _ := ⟨Nat.le_refl _, fun _ => rfl⟩
  trans h h' := ⟨Nat.le_trans h.1 h'.1, fun r => (h'.2 r).trans (h.2 r)⟩

theorem signal_form (moves : signalContract.Moves m m') : grammarContract.Moves m m' :=
  ⟨⟨moves.inv.1, moves.rel.1⟩, moves.restored⟩

/-- A step of an expression changes no stack, and so it leaves no signal. -/
theorem signal_steps : signalContract.Steps IsExpr (Routine.BodyIn IsStatement) where
  toLawful := signal_lawful
  code hm := hm.1.code
  -- none of these touches a stack, and each forms code as the grammar says
  console hc hm := signal_untouched hm (grammar_frames.console hc hm.1) rfl rfl rfl
  assign value v _ moves := signal_untouched moves.inv
    (grammar_frames.assign value v trivial (signal_form moves)) rfl rfl rfl
  declare _ hr hm := signal_untouched hm (grammar_frames.declare trivial hr hm.1) rfl rfl rfl
  register _ accepted hd hm := signal_untouched hm
    (grammar_frames.register trivial accepted hd hm.1) rfl rfl rfl
  extend name _ he hm := signal_untouched hm (grammar_frames.extend name he hm.1) rfl rfl rfl
  linkIn h hm := ⟨grammar_frames.linkIn h hm.1, hm.2.active, hm.2.slots⟩
  linkOut h hm moves :=
    ⟨⟨(grammar_frames.linkOut h hm.1 (signal_form moves)).inv, moves.inv.2.active,
      moves.inv.2.slots⟩, moves.rel⟩
  linkRefused hm := signal_untouched hm (grammar_frames.linkRefused hm.1) rfl rfl rfl
  setField h field v hm := by
    refine signal_allows hm (grammar_frames.setField h field v hm.1) (fun _ => rfl) rfl ?_
    intro k s r hl
    exact .inl (hl.of_outline (outline_modify (fun i => i.outline_setField field v) k).symm)
  allocate := by
    intro _ m _ d fields hbefore hknown hd hfields hm
    have hform := grammar_frames.allocate hbefore.1 hknown hd hfields hm.1
    obtain ⟨methods, heap, grown, hmethods, hmade⟩ := allocate_cases d fields m
    rw [hmade] at hform ⊢
    refine signal_allows hm hform grown.returns rfl fun {h s r} hl => ?_
    obtain ⟨routine, access, level, hslot⟩ := hl
    change _ ∈ ((heap.instances.push ⟨d.name, fields ++ methods⟩).get h).slots at hslot
    by_cases hh : h = heap.instances.next
    · -- the functions of the new instance have new stacks
      subst hh
      rw [Pool.get_push_next] at hslot
      rcases List.mem_append.1 hslot with hslot | hslot
      · exact absurd hslot hfields.not_function
      · obtain ⟨f, -, locals, heq, -, -, hlow, -⟩ := hmethods _ hslot
        cases heq
        exact .inr hlow
    · rw [Pool.get_push_of_ne hh, grown.instances] at hslot
      exact .inl ⟨routine, access, level, hslot⟩

/-- Parameters are bound in a store, which has no signals. -/
theorem signal_bindParams (params : List String) (args : List Value)
    (hm : signalContract.inv m) :
    signalContract.Allows m (m.updateScopes (bindParams m.context.level params args)) :=
  signal_untouched hm (grammar_frames.bindParams params args hm.1) rfl rfl rfl

/-- A copy of an empty stack cannot be told from no stack. -/
theorem Machine.Quiet.get_forked (hq : m.Quiet) (r : Handle) :
    m.forked.heap.returns.get r = m.heap.returns.get r := by
  show (m.heap.returns.push (m.heap.returns.get m.context.returns)).get r = _
  rw [show m.heap.returns.get m.context.returns = default from hq.active]
  exact Pool.get_push_default _ r

/-- A script begins without signals, with an empty stack of its own. -/
theorem Machine.Quiet.forked (hq : m.Quiet) : m.forked.Quiet := by
  refine hq.step hq.get_forked ?_ .inl
  exact Pool.get_of_le (Nat.le_refl _)

/-- A script that ends with no more signals than it began with adds none. -/
theorem get_merged (hsub : m'.returns.length ≤ m.returns.length) (r : Handle) :
    (m.merged m').heap.returns.get r = m'.heap.returns.get r := by
  show (Context.mergeCell _ _ _ m'.heap.returns).get r = _
  unfold Context.mergeCell
  split
  · rfl
  · have hdrop : (m'.heap.returns.get m'.context.returns).drop m.returns.length = [] :=
      List.drop_of_length_le hsub
    rcases Pool.get_modify_cases m'.heap.returns m.context.returns
      (fun a => a ++ (m'.heap.returns.get m'.context.returns).drop m.returns.length) r with
      ⟨-, -, hget⟩ | hget
    · rw [hget, hdrop, List.append_nil]
    · exact hget

theorem signal_nested : signalContract.Nested where
  toLawful := signal_lawful
  scopeIn c hm := ⟨grammar_frames.scopeIn c hm.1, hm.2.active, hm.2.slots⟩
  scopeOut c hm moves :=
    ⟨⟨(grammar_frames.scopeOut c hm.1 (signal_form moves)).inv, moves.inv.2.active,
      moves.inv.2.slots⟩, moves.rel⟩
  clauseIn hm := ⟨grammar_frames.clauseIn hm.1, hm.2.active, hm.2.slots⟩
  clauseOut hm moves :=
    ⟨⟨(grammar_frames.clauseOut hm.1 (signal_form moves)).inv, moves.inv.2.active,
      moves.inv.2.slots⟩, moves.rel⟩
  callIn hm hlt := ⟨grammar_frames.callIn hm.1 hlt, hm.2.active, hm.2.slots⟩
  callOut hm hlt moves :=
    ⟨⟨(grammar_frames.callOut hm.1 hlt (signal_form moves)).inv, moves.inv.2.active,
      moves.inv.2.slots⟩, moves.rel⟩
  methodIn := by
    intro m h signature routine access locals hm hfound
    refine ⟨grammar_frames.methodIn hm.1 hfound, hm.2.step (fun _ => rfl) ?_ ?_⟩
    -- the stack of the method becomes the active one, and it is empty like all of them
    · exact hm.2.slots (Instance.hasLocals_of_method? hfound)
    · intro k s r hl
      have houtline := outline_modify (p := m.heap.instances) (h := h)
        (fun i => i.outline_setLevel signature (max m.context.level locals.level + 1)) k
      exact .inl (hl.of_outline houtline.symm)
  methodOut := by
    intro m m' h signature routine access locals hm hfound moves
    have hform := grammar_frames.methodOut hm.1 hfound (signal_form moves)
    refine ⟨⟨hform.inv, moves.inv.2.step (fun _ => rfl) ?_ ?_⟩, moves.rel⟩
    -- the stack of the caller has not changed meanwhile
    · exact (moves.rel.2 m.context.returns).trans hm.2.active
    · intro k s r hl
      have hlevel := outline_modify (p := m'.heap.instances) (h := h)
        (fun i => i.outline_setLevel signature locals.level) k
      exact .inl (hl.of_outline ((outline_modify (fun i => i.outline_mapFields _) k).trans
        hlevel).symm)
  fork hm := ⟨grammar_frames.fork hm.1, hm.2.forked⟩
  merge := by
    intro m sub hm moves
    have hform := grammar_frames.merge hm.1 (signal_form moves)
    have hsame : ∀ r, sub.heap.returns.get r = m.heap.returns.get r :=
      fun r => (moves.rel.2 r).trans (hm.2.get_forked r)
    have hnone : sub.returns.length ≤ m.returns.length := by
      rw [moves.inv.2.active]
      exact Nat.zero_le _
    have hmerged := get_merged hnone
    refine ⟨⟨hform.inv, moves.inv.2.step hmerged ?_ .inl⟩, hform.rel,
      fun r => (hmerged r).trans (hsame r)⟩
    exact (hsame _).trans hm.2.active
  discard := by
    intro m sub chained hchained hm moves
    have hform := grammar_frames.discard hchained hm.1 (signal_form moves)
    have hsame : ∀ r, sub.heap.returns.get r = m.heap.returns.get r :=
      fun r => (moves.rel.2 r).trans (hm.2.get_forked r)
    refine ⟨⟨hform.inv, moves.inv.2.step (fun _ => rfl) ?_ .inl⟩, hform.rel, hsame⟩
    exact (hsame _).trans hm.2.active

end Steps

/-! ## One signal -/

/-- The machine with one more signal. -/
def Machine.signalling (m : Machine) (v : Value) : Machine := m.updateReturns (· ++ [v])

section Signal

variable {m : Machine}

theorem pending_of_quiet (hm : signalContract.inv m) : m.pending = false := by
  unfold Machine.pending
  rw [hm.2.active]
  rfl

/-- A new signal stands on top of those that are pending. -/
theorem returns_signalling_of_lt (hm : m.context.returns.index < m.heap.returns.size) (v : Value) :
    (m.signalling v).returns = m.returns ++ [v] :=
  Pool.get_modify_self hm _

/-- A signal on a quiet machine is the only one. -/
theorem returns_signalling (hm : signalContract.inv m) (v : Value) :
    (m.signalling v).returns = [v] := by
  rw [returns_signalling_of_lt hm.1.returns, hm.2.active]
  rfl

theorem pending_signalling (hm : signalContract.inv m) (v : Value) :
    (m.signalling v).pending = true := by
  unfold Machine.pending
  rw [returns_signalling hm]
  rfl

theorem signal_signalling (hm : signalContract.inv m) (v : Value) :
    (m.signalling v).signal = v := by
  unfold Machine.signal
  rw [returns_signalling hm]
  rfl

/-- Taking the signal off leaves no trace of it. -/
theorem dropSignal_signalling (m : Machine) (v : Value) :
    (m.signalling v).dropSignal = m := by
  have hundone : (m.heap.returns.modify m.context.returns (· ++ [v])).modify m.context.returns
      List.dropLast = m.heap.returns :=
    Pool.modify_undo List.dropLast_concat
  unfold Machine.dropSignal Machine.signalling Machine.updateReturns
  dsimp only
  rw [hundone]

end Signal

/-! ## Statements and their flow -/

/-- How evaluations and a flow from the machine `m` go together. The second evaluation may give up;
otherwise both end alike, and as the flow says, with a signal for the value that it returns. -/
inductive Together {α : Type} (A : Option Value → α → Prop) (m : Machine) :
    Outcome α → Outcome α → Outcome (Option Value) → Prop
  | stops {o : Outcome α} {p : Outcome (Option Value)} {m' : Machine}
    (moves : signalContract.Moves m m') : Together A m o ⟨.unfinished, m'⟩ p
  | goesOn {a : α} {m' : Machine} (ha : A none a) (moves : signalContract.Moves m m') :
    Together A m ⟨.ok a, m'⟩ ⟨.ok a, m'⟩ ⟨.ok none, m'⟩
  | returns {a : α} {v : Value} {m' : Machine} (ha : A (some v) a)
    (moves : signalContract.Moves m m') :
    Together A m ⟨.ok a, m'.signalling v⟩ ⟨.ok a, m'.signalling v⟩ ⟨.ok (some v), m'⟩
  | fails {e : RuntimeError} {m' : Machine} (moves : signalContract.Moves m m') :
    Together A m ⟨.error e, m'⟩ ⟨.error e, m'⟩ ⟨.error e, m'⟩

/-- What follows a step that keeps the contract goes together as before. -/
theorem Together.trans {α : Type} {A : Option Value → α → Prop} {m m' : Machine}
    (moves : signalContract.Moves m m') {o o' : Outcome α} {p : Outcome (Option Value)}
    (h : Together A m' o o' p) : Together A m o o' p := by
  cases h with
  | stops moves' => exact .stops (moves.trans signal_lawful moves')
  | goesOn ha moves' => exact .goesOn ha (moves.trans signal_lawful moves')
  | returns ha moves' => exact .returns ha (moves.trans signal_lawful moves')
  | fails moves' => exact .fails (moves.trans signal_lawful moves')

/-- Two computations go together with a flow from every machine without signals. The value that they
give may depend on what the flow returns. -/
def Follows {α : Type} (A : Option Value → α → Prop) (x y : Exec α) (f : Flow) : Prop :=
  ∀ m, signalContract.inv m → Together A m (x m) (y m) (f m)

/-- Any value goes with any flow. -/
def AnyValue {α : Type} (_ : Option Value) (_ : α) : Prop := True

/-- The value says whether the flow has returned. -/
def SaysReturned (r : Option Value) (b : Bool) : Prop := b = r.isSome

namespace Follows

variable {α β : Type} {A : Option Value → α → Prop} {B : Option Value → β → Prop}

/-- What keeps the contract goes on. -/
theorem of_kept {x y : Exec α} (h : signalContract.Kept x y) :
    Follows AnyValue x y (x >>= fun _ => pure none) := by
  intro m hm
  obtain ⟨same, moves⟩ := h m hm
  rw [Exec.bind_apply]
  rcases hy : y m with ⟨a | e | _, m'⟩ <;> rw [hy] at same moves
  · rw [same.resolve_left nofun]
    exact .goesOn trivial moves
  · rw [same.resolve_left nofun]
    exact .fails moves
  · exact .stops moves

theorem pure (a : α) (ha : A none a) : Follows A (Pure.pure a) (Pure.pure a) (Pure.pure none) :=
  fun _ hm => .goesOn ha (Contract.Moves.refl signal_lawful hm)

/-- An evaluation without signals comes first. -/
theorem bind {x y : Exec α} {g g' : α → Exec β} {f : α → Flow} (h : signalContract.Kept x y)
    (hg : ∀ a, Follows B (g a) (g' a) (f a)) : Follows B (x >>= g) (y >>= g') (x >>= f) := by
  intro m hm
  obtain ⟨same, moves⟩ := h m hm
  rw [Exec.bind_apply, Exec.bind_apply, Exec.bind_apply]
  rcases hy : y m with ⟨a | e | _, m'⟩ <;> rw [hy] at same moves
  · rw [same.resolve_left nofun]
    exact Together.trans moves (hg a m' moves.inv)
  · rw [same.resolve_left nofun]
    exact .fails moves
  · exact .stops moves

/-- The value may be changed afterwards. -/
theorem map {x y : Exec α} {f : Flow} (h : Follows A x y f) (g : α → β)
    (hAB : ∀ r a, A r a → B r (g a)) :
    Follows B (x >>= fun a => Pure.pure (g a)) (y >>= fun a => Pure.pure (g a)) f := by
  intro m hm
  have hm' := h m hm
  rw [Exec.bind_apply, Exec.bind_apply]
  generalize x m = o at hm'
  generalize y m = o' at hm'
  generalize f m = p at hm'
  cases hm' with
  | stops moves => exact .stops moves
  | goesOn ha moves => exact .goesOn (hAB _ _ ha) moves
  | returns ha moves => exact .returns (hAB _ _ ha) moves
  | fails moves => exact .fails moves

/-- A flow on another machine, with a last step that does not look at signals. -/
theorem closing {x y : Exec α} {f : Flow} (h : Follows A x y f) {leave : Machine → Machine}
    {m entered : Machine} (henter : signalContract.inv entered)
    (hsignal : ∀ m' v, leave (m'.signalling v) = (leave m').signalling v)
    (hleave : ∀ m', signalContract.Moves entered m' → signalContract.Moves m (leave m')) :
    Together A m (Exec.closing x leave entered) (Exec.closing y leave entered)
      (Exec.closing f leave entered) := by
  have hm := h entered henter
  unfold Exec.closing
  generalize x entered = o at hm
  generalize y entered = o' at hm
  generalize f entered = p at hm
  cases hm with
  | stops moves => exact .stops (hleave _ moves)
  | goesOn ha moves => exact .goesOn ha (hleave _ moves)
  | returns ha moves =>
    dsimp only
    rw [hsignal]
    exact .returns ha (hleave _ moves)
  | fails moves => exact .fails (hleave _ moves)

theorem inBlock {x y : Exec α} {f : Flow} (h : Follows A x y f) :
    Follows A (Exec.inBlock x) (Exec.inBlock y) (Exec.inBlock f) :=
  fun _ hm => h.closing (signal_nested.enterBlock hm) (fun _ _ => rfl)
    fun _ moves => signal_nested.leaveBlock hm moves

theorem asClause {x y : Exec α} {f : Flow} (h : Follows A x y f) :
    Follows A (Exec.asClause x) (Exec.asClause y) (Exec.asClause f) :=
  fun _ hm => h.closing (signal_nested.clauseIn hm) (fun _ _ => rfl)
    fun _ moves => signal_nested.leaveClause hm moves

/-- A block stops at the first statement that leaves a signal, and that is the first `return`. -/
theorem block {x y : Evaluator} {fl : Node → Flow} {nodes : List Node}
    (h : ∀ n ∈ nodes, Follows AnyValue (x n) (y n) (fl n)) :
    Follows SaysReturned (runBlock x nodes) (runBlock y nodes) (flowBlock fl nodes) := by
  induction nodes with
  | nil => exact pure false rfl
  | cons node nodes ih =>
    obtain ⟨hfirst, hrest⟩ := List.forall_mem_cons.1 h
    intro m hm
    have hm' := hfirst m hm
    show Together SaysReturned m _ _ ((fl node).andThen (flowBlock fl nodes) m)
    rw [Flow.andThen_apply, runBlock, runBlock]
    generalize x node m = o at hm'
    generalize y node m = o' at hm'
    generalize fl node m = p at hm'
    cases hm' with
    | stops moves => exact .stops moves
    | fails moves => exact .fails moves
    | goesOn _ moves =>
      -- no signal, so the block goes on as the flow does
      dsimp only
      rw [pending_of_quiet moves.inv]
      exact (ih hrest _ moves.inv).trans moves
    | returns _ moves =>
      dsimp only
      rw [pending_signalling moves.inv]
      exact .returns rfl moves

/-- A body that says whether it has returned, and what comes after it if not. -/
theorem andThen {x y : Exec Bool} {f g : Flow} (h : Follows SaysReturned x y f)
    {next next' : Exec Unit} (hnext : Follows AnyValue next next' g) :
    Follows AnyValue (x >>= fun stops => if stops then Pure.pure () else next)
      (y >>= fun stops => if stops then Pure.pure () else next') (f.andThen g) := by
  intro m hm
  have hm' := h m hm
  rw [Flow.andThen_apply, Exec.bind_apply, Exec.bind_apply]
  generalize x m = o at hm'
  generalize y m = o' at hm'
  generalize f m = p at hm'
  cases hm' with
  | stops moves => exact .stops moves
  | fails moves => exact .fails moves
  | goesOn ha moves =>
    cases ha
    exact (hnext _ moves.inv).trans moves
  | returns ha moves =>
    cases ha
    exact .returns trivial moves

/-- Something that does not return, and what comes after it. -/
theorem andStep {x y : Exec α} {f g : Flow} (h : Follows A x y f) (hsilent : f.NoReturn)
    {next next' : Exec β} (hnext : Follows B next next' g) :
    Follows B (x >>= fun _ => next) (y >>= fun _ => next') (f.andThen g) := by
  intro m hm
  have hm' := h m hm
  have hnot := hsilent m
  rw [Flow.andThen_apply, Exec.bind_apply, Exec.bind_apply]
  generalize x m = o at hm'
  generalize y m = o' at hm'
  generalize f m = p at hm' hnot
  cases hm' with
  | stops moves => exact .stops moves
  | fails moves => exact .fails moves
  | goesOn _ moves => exact (hnext _ moves.inv).trans moves
  -- nobody would look for a signal here, so there must be none
  | returns _ _ => exact absurd rfl (hnot _)

/-- A loop whose body may return, but whose step may not. -/
theorem loop {test test' body body' : Exec Bool} {step step' : Exec Unit} {fbody fstep : Flow}
    (htest : signalContract.Kept test test') (hbody : Follows SaysReturned body body' fbody)
    (hstep : Follows AnyValue step step' fstep) (hsilent : fstep.NoReturn) (fuel : Nat) :
    Follows AnyValue (repeatWhile test body step fuel) (repeatWhile test' body' step' fuel)
      (flowWhile test fbody fstep fuel) := by
  induction fuel with
  | zero => exact fun m hm => .stops (Contract.Moves.refl signal_lawful hm)
  | succ fuel ih =>
    rw [Contract.repeatWhile_succ, Contract.repeatWhile_succ]
    refine bind htest fun goesOn => ?_
    cases goesOn with
    | false => exact pure () trivial
    | true => exact hbody.andThen (hstep.andStep hsilent ih)

/-- The end of a call takes the signal off its block, and with it the value that the flow
returns. -/
theorem taken {x y : Exec Bool} {f : Flow} (h : Follows SaysReturned x y f) (e : RuntimeError) :
    let take : Bool → Exec Value := fun returned =>
      if returned then do
        let v ← Exec.look Machine.signal
        Exec.update Machine.dropSignal
        return v
      else Exec.fail e
    signalContract.Kept (x >>= take) (y >>= take) ∧
      signalContract.Kept (f.value e) (y >>= take) := by
  intro take
  -- with one signal on top, taking it gives its value and leaves the machine as before it
  have htake : ∀ {m}, signalContract.inv m → ∀ v, take true (m.signalling v) = ⟨.ok v, m⟩ := by
    intro m hm v
    show (⟨.ok (m.signalling v).signal, (m.signalling v).dropSignal⟩ : Outcome Value) = _
    rw [signal_signalling hm, dropSignal_signalling]
  -- both statements are about the same pair of outcomes, so they are shown together
  have hboth : ∀ m, signalContract.inv m →
      signalContract.Meets m ((x >>= take) m) ((y >>= take) m) ∧
        signalContract.Meets m (f.value e m) ((y >>= take) m) := by
    intro m hm
    have hm' := h m hm
    unfold Flow.value
    rw [Exec.bind_apply, Exec.bind_apply, Exec.bind_apply]
    generalize x m = o at hm'
    generalize y m = o' at hm'
    generalize f m = p at hm'
    cases hm' with
    | stops moves => exact ⟨⟨.inl ⟨trivial, rfl⟩, moves⟩, ⟨.inl ⟨trivial, rfl⟩, moves⟩⟩
    | fails moves => exact ⟨⟨.inr rfl, moves⟩, ⟨.inr rfl, moves⟩⟩
    | goesOn ha moves =>
      cases ha
      exact ⟨⟨.inr rfl, moves⟩, ⟨.inr rfl, moves⟩⟩
    | returns ha moves =>
      cases ha
      dsimp only [Option.isSome_some]
      rw [htake moves.inv]
      exact ⟨⟨.inr rfl, moves⟩, ⟨.inr rfl, moves⟩⟩
  exact ⟨fun m hm => (hboth m hm).1, fun m hm => (hboth m hm).2⟩

/-- The body of a function gives what its flow returns, and no signal is left. -/
theorem body {x y : Evaluator} {f : Flow} {routine : Routine}
    (h : Follows SaysReturned (runBlock x routine.body) (runBlock y routine.body) f)
    (args : List Value) :
    signalContract.Kept (runBody x routine args) (runBody y routine args) ∧
      signalContract.Kept (flowBody f routine args) (runBody y routine args) := by
  have hbound : signalContract.Kept
      (Exec.update fun m => m.updateScopes (bindParams m.context.level routine.params args))
      (Exec.update fun m => m.updateScopes (bindParams m.context.level routine.params args)) :=
    Contract.kept_update fun m hm => ⟨signal_bindParams _ _ hm, ⟨rfl, rfl⟩⟩
  obtain ⟨htaken, hvalue⟩ := h.taken (.missingReturn routine.name)
  unfold runBody flowBody
  by_cases hcount : args.length ≠ routine.params.length
  · simp only [if_pos hcount]
    exact ⟨Contract.kept_fail signal_lawful _, Contract.kept_fail signal_lawful _⟩
  · simp only [if_neg hcount]
    exact ⟨hbound.bind signal_lawful fun _ => htaken, hbound.bind signal_lawful fun _ => hvalue⟩

/-- A `return`. -/
theorem giveBack (v : Value) :
    Follows AnyValue
      ((Exec.update (·.updateReturns (· ++ [v])) >>= fun _ => Pure.pure .void) : Exec Value)
      (Exec.update (·.updateReturns (· ++ [v])) >>= fun _ => Pure.pure .void)
      (Pure.pure (some v)) :=
  fun _ hm => .returns trivial (Contract.Moves.refl signal_lawful hm)

/-- A signal at the end of a program is noted on the console, and nothing else is. -/
theorem noteSignal_eq (m : Machine) :
    ∃ c, m.console.Proceeds c ∧ m.noteSignal = { m with console := c } := by
  unfold Machine.noteSignal
  split
  · refine ⟨_, ?_, rfl⟩
    exact List.suffix_rfl
  · exact ⟨m.console, List.suffix_rfl, rfl⟩

/-- The end of a program drops the signal of a `return` outside functions. -/
theorem program {x y : Evaluator} {fl : Node → Flow} {program : Program}
    (h : ∀ n ∈ program, Follows AnyValue (x n) (y n) (fl n)) :
    signalContract.Kept (α := Unit) (runProgram x program) (runProgram y program) := by
  induction program with
  | nil => exact Contract.kept_pure signal_lawful ()
  | cons node nodes ih =>
    obtain ⟨hfirst, hrest⟩ := List.forall_mem_cons.1 h
    intro m hm
    have hm' := hfirst m hm
    rw [runProgram, runProgram]
    generalize x node m = o at hm'
    generalize y node m = o' at hm'
    generalize fl node m = p at hm'
    cases hm' with
    | stops moves => exact ⟨.inl ⟨trivial, rfl⟩, moves⟩
    | fails moves => exact ⟨.inr rfl, moves⟩
    | goesOn _ moves =>
      dsimp only
      rw [pending_of_quiet moves.inv]
      obtain ⟨same, moves'⟩ := ih hrest _ moves.inv
      exact ⟨same, moves.trans signal_lawful moves'⟩
    | @returns _ v m' _ moves =>
      dsimp only
      rw [pending_signalling moves.inv]
      refine ⟨.inr rfl, moves.trans signal_lawful ?_⟩
      obtain ⟨c, hc, hnoted⟩ := noteSignal_eq (m'.signalling v)
      have hdropped : (m'.signalling v).noteSignal.dropSignal = { m' with console := c } := by
        rw [hnoted]
        show ({ (m'.signalling v).dropSignal with console := c } : Machine) = _
        rw [dropSignal_signalling]
      show signalContract.Moves m' (m'.signalling v).noteSignal.dropSignal
      rw [hdropped]
      exact ⟨signal_steps.console hc moves.inv, ⟨rfl, rfl⟩⟩

section Rules

variable {ev ev' : Evaluator} {fl : Node → Flow}

/-- What the rule for a node takes for granted of the nodes below it. -/
structure Below (ev ev' : Evaluator) (fl : Node → Flow) : Prop where
  ask : ∀ {n}, IsExpr n → signalContract.Kept (ev n) (ev' n)
  run : ∀ {n}, IsStatement n → Follows AnyValue (ev n) (ev' n) (fl n)
  silent : ∀ {n}, ¬HoldsReturn n → (fl n).NoReturn

theorem Below.given (h : Below ev ev' fl) :
    signalContract.Given IsExpr (Routine.BodyIn IsStatement) ev ev' where
  toCallable := Contract.callable_of_all fun _ _ => trivial
  ask := h.ask
  invoke args hr :=
    Contract.kept_asFunction signal_nested (body (block fun n hn => h.run (hr n hn)) args).1
  method o _ args _ hr :=
    Contract.kept_asMethod signal_nested o _ (body (block fun n hn => h.run (hr n hn)) args).1
  importing _ _ :=
    Contract.kept_importSource signal_nested.toForks _ fun _ hparse =>
      program fun n hn => h.run (isStatement_of_ofSource hparse n hn)

/-- A statement that does not direct the run is evaluated by steps and expressions. -/
theorem Below.simple (h : Below ev ev' fl) {node : Node} (hnode : IsStatement node)
    (hcontrol : node.isControl = false) (fuel : Nat) :
    signalContract.Kept (evalNode ev fuel node) (evalNode ev' fuel node) :=
  fun _ hm => Contract.meets_evalNode signal_steps h.given (grammar_language.parts hnode) hcontrol
    fuel hm trivial

/-- **The rule for every statement follows its flow**, if its clauses are silent. -/
theorem rule (h : Below ev ev' fl) {node : Node} (hnode : IsStatement node)
    (hsilent : SilentClauses node) (fuel : Nat) :
    Follows AnyValue (evalNode ev fuel node) (evalNode ev' fuel node)
      (flowNode ev fl fuel node) := by
  have hparts := grammar_language.parts hnode
  have hbelow := grammar_language.below hnode
  have hblock : ∀ nodes, (∀ n ∈ nodes, IsStatement n) →
      Follows SaysReturned (runBlock ev nodes) (runBlock ev' nodes) (flowBlock fl nodes) :=
    fun nodes hnodes => block fun n hn => h.run (hnodes n hn)
  have hclause : ∀ {n}, IsStatement n → Follows AnyValue
      (Exec.asClause (ev n >>= fun _ => Pure.pure ()))
      (Exec.asClause (ev' n >>= fun _ => Pure.pure ()))
      (Exec.asClause (fl n)) :=
    fun hn => ((h.run hn).map (fun _ => ()) fun _ _ _ => trivial).asClause
  have hdone : ∀ {x y : Exec Unit} {f : Flow}, Follows AnyValue x y f →
      Follows AnyValue (x >>= fun _ => Pure.pure Value.void)
        (y >>= fun _ => Pure.pure Value.void) f :=
    fun h => h.map (fun _ => Value.void) fun _ _ _ => trivial
  cases hcontrol : node.isControl with
  | false =>
    rw [flowNode_of_simple ev fl fuel hcontrol]
    exact of_kept (h.simple hnode hcontrol fuel)
  | true =>
    cases node with
    | ifElse condition yes no =>
      obtain ⟨hyes, hno⟩ := List.forall_mem_append.1 hbelow
      have hbranch : ∀ {nodes}, (∀ n ∈ nodes, IsStatement n) → Follows AnyValue
          ((runBlock ev nodes : Exec Bool) >>= fun _ => Pure.pure ())
          ((runBlock ev' nodes : Exec Bool) >>= fun _ => Pure.pure ()) (flowBlock fl nodes) :=
        fun hnodes => (hblock _ hnodes).map (fun _ => ()) fun _ _ _ => trivial
      refine hdone (x := runIf ev condition yes no) (y := runIf ev' condition yes no) ?_
      unfold runIf flowNode
      refine inBlock (A := AnyValue) ?_
      refine bind (Contract.kept_holds signal_lawful (h.ask hparts)) fun holds => ?_
      cases holds with
      | true => exact hbranch hyes
      | false =>
        cases no with
        | none => exact pure () trivial
        | some no => exact hbranch hno
    | whileDo condition nodes =>
      refine hdone (inBlock ?_)
      exact loop (Contract.kept_holds signal_lawful (h.ask hparts)) (hblock nodes hbelow)
        (pure () trivial) .pure fuel
    | forDo init condition increment nodes =>
      obtain ⟨hinit, hrest⟩ := List.forall_mem_cons.1 hbelow
      obtain ⟨hincrement, hnodes⟩ := List.forall_mem_cons.1 hrest
      -- no clause returns, so the rounds go by the body alone
      have hfirst := Flow.NoReturn.asClause (h.silent hsilent.1)
      have hstep := Flow.NoReturn.asClause (h.silent hsilent.2)
      refine hdone (x := runFor ev fuel init condition increment nodes)
        (y := runFor ev' fuel init condition increment nodes) ?_
      unfold runFor flowNode
      refine inBlock (A := AnyValue) ?_
      refine (hclause hinit).andStep hfirst ?_
      exact loop (Contract.kept_holds signal_lawful (h.ask hparts)) (hblock nodes hnodes)
        (hclause hincrement) hstep fuel
    | giveBack value =>
      cases value with
      | none => exact giveBack .void
      | some value => exact bind (h.ask hparts) giveBack
    | _ => cases hcontrol

end Rules
end Follows

end BoxScript
