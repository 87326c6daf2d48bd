import BoxScript.Proofs.Evaluation
import BoxScript.Session

/-!
# The course of a run

An evaluation is a function, so what happens in its course does not show in its outcome. But it can
be asked what the outcome depends on. `evalOr P other` evaluates as the evaluator does, except that
it leaves to `other` what is to be evaluated where `P` does not hold. If the outcome is the same for
every `other`, then nothing was ever evaluated where `P` does not hold: `P` held `Throughout`. And a
computation `GetsTo` the evaluation of a node on a machine when its outcome does depend on that one.

`evalWhile P` gives up where `P` does not hold, and it goes with contracts about some runs only: if
their scope was kept to throughout a computation, then what they say holds of it.

With that, the machines that a session can get to are those between its runs and those on which
some node is evaluated in the course of a run (`Reachable`). A contract that allows all steps holds
on all of them.
-/

namespace BoxScript

variable {α : Type} {P Q : Node → Machine → Prop}

open Classical in
/-- Evaluate as the evaluator does where `P` holds, and as `other` does elsewhere. -/
noncomputable def evalOr (P : Node → Machine → Prop) (other : Nat → Evaluator) : Nat → Evaluator
  | 0 => fun _ m => ⟨.unfinished, m⟩
  | fuel + 1 => fun node m =>
    if P node m then evalNode (evalOr P other fuel) fuel node m else other (fuel + 1) node m

/-- A node that is in scope is evaluated as usual. -/
theorem evalOr_of_holds {other : Nat → Evaluator} {fuel : Nat} {node : Node} {m : Machine}
    (h : P node m) :
    evalOr P other (fuel + 1) node m = evalNode (evalOr P other fuel) fuel node m := if_pos h

theorem evalOr_of_not {other : Nat → Evaluator} {fuel : Nat} {node : Node} {m : Machine}
    (h : ¬P node m) : evalOr P other (fuel + 1) node m = other (fuel + 1) node m := if_neg h

/-- Evaluate where `P` holds, and give up elsewhere. -/
noncomputable def evalWhile (P : Node → Machine → Prop) : Nat → Evaluator :=
  evalOr P fun _ _ => Exec.unfinished

theorem evalWhile_of_holds {fuel : Nat} {node : Node} {m : Machine} (h : P node m) :
    evalWhile P (fuel + 1) node m = evalNode (evalWhile P fuel) fuel node m := evalOr_of_holds h

theorem evalWhile_of_not {fuel : Nat} {node : Node} {m : Machine} (h : ¬P node m) :
    evalWhile P fuel node m = ⟨.unfinished, m⟩ := by
  cases fuel with
  | zero => rfl
  | succ fuel => exact evalOr_of_not h

/-- In the course of a computation nodes are evaluated only where `P` holds. The computation is
given by what it makes of an evaluator. -/
def Throughout (P : Node → Machine → Prop) (fuel : Nat) (x : Evaluator → Exec α) (m : Machine) :
    Prop :=
  ∀ other, x (evalOr P other fuel) m = x (eval fuel) m

/-- In the course of a computation a node is evaluated on the machine `there`. -/
def GetsTo (fuel : Nat) (x : Evaluator → Exec α) (m : Machine) (node : Node) (there : Machine) :
    Prop :=
  ¬Throughout (fun n t => ¬(n = node ∧ t = there)) fuel x m

/-- In the course of a computation a node is evaluated where `Q` holds. -/
def Happens (Q : Node → Machine → Prop) (fuel : Nat) (x : Evaluator → Exec α) (m : Machine) :
    Prop :=
  ¬Throughout (fun n t => ¬Q n t) fuel x m

/-- Two detours are one: what `Q` leaves to `other`, `P` can leave to the rest of the evaluation. -/
theorem evalOr_evalOr (h : ∀ n t, P n t → Q n t) (other : Nat → Evaluator) (fuel : Nat) :
    evalOr P (evalOr Q other) fuel = evalOr Q other fuel := by
  induction fuel with
  | zero => rfl
  | succ fuel ih =>
    funext node m
    by_cases hp : P node m
    · rw [evalOr_of_holds hp, evalOr_of_holds (h node m hp), ih]
    · rw [evalOr_of_not hp]

/-- A detour through the evaluator itself is none. -/
theorem evalOr_eval (P : Node → Machine → Prop) (fuel : Nat) :
    evalOr P (fun k => eval k) fuel = (eval fuel : Evaluator) := by
  induction fuel with
  | zero => rfl
  | succ fuel ih =>
    funext node m
    by_cases hp : P node m
    · exact (evalOr_of_holds hp).trans (congrArg (fun ev => evalNode ev fuel node m) ih)
    · exact evalOr_of_not hp

theorem Throughout.mono {fuel : Nat} {x : Evaluator → Exec α} {m : Machine}
    (h : ∀ n t, P n t → Q n t) (hp : Throughout P fuel x m) : Throughout Q fuel x m := by
  intro other
  rw [← evalOr_evalOr h other fuel]
  exact hp (evalOr Q other)

/-- A last step evaluates nothing. -/
theorem Throughout.closing {fuel : Nat} {x y : Evaluator → Exec α} {m entered : Machine}
    {leave : Machine → Machine} (h : Throughout P fuel x entered)
    (hy : ∀ ev, y ev m = Exec.closing (x ev) leave entered) : Throughout P fuel y m := by
  intro other
  have hclosed : Exec.closing (x (evalOr P other fuel)) leave entered
      = Exec.closing (x (eval fuel)) leave entered := by
    rw [Exec.closing_apply, Exec.closing_apply, h other]
  exact ((hy _).trans hclosed).trans (hy _).symm

/-- Nor does what follows without an evaluator. -/
theorem Throughout.bind {β : Type} {fuel : Nat} {x : Evaluator → Exec α} {m : Machine}
    (h : Throughout P fuel x m) (f : α → Exec β) : Throughout P fuel (fun ev => x ev >>= f) m :=
  fun other => Exec.bind_congr (h other)

/-- Where nothing is left to it, no detour is taken. -/
theorem evalOr_true (other : Nat → Evaluator) (fuel : Nat) :
    evalOr (fun _ _ => True) other fuel = (eval fuel : Evaluator) := by
  induction fuel with
  | zero => rfl
  | succ fuel ih =>
    funext node m
    rw [evalOr_of_holds trivial, ih]
    rfl

theorem throughout_true (fuel : Nat) (x : Evaluator → Exec α) (m : Machine) :
    Throughout (fun _ _ => True) fuel x m := by
  intro other
  rw [evalOr_true]

/-- What holds throughout holds wherever the computation gets to. -/
theorem Throughout.getsTo {fuel : Nat} {x : Evaluator → Exec α} {m : Machine} {node : Node}
    {there : Machine} (hp : Throughout P fuel x m) (g : GetsTo fuel x m node there) :
    P node there := by
  by_contra hnot
  refine g (hp.mono fun n t hnt => ?_)
  rintro ⟨rfl, rfl⟩
  exact hnot hnt

/-- A computation that fails as an evaluation does gets to it. -/
theorem getsTo_of_fails {fuel : Nat} {x : Evaluator → Exec α} {m : Machine} {node : Node}
    {there : Machine}
    (h : ∀ (e : RuntimeError) (ev : Nat → Evaluator),
      (∀ k, ev (k + 1) node there = ⟨.error e, there⟩) →
      (∀ k n t, ¬(n = node ∧ t = there) → ev (k + 1) n t = evalNode (ev k) k n t) →
      (x (ev fuel) m).result = .error e) : GetsTo fuel x m node there := by
  intro avoided
  -- failing there in two ways makes the computation fail in two ways
  have hfails : ∀ e, (x (eval fuel) m).result = .error e := fun e =>
    (congrArg Outcome.result (avoided fun _ _ => Exec.fail e)).symm.trans
      (h e (evalOr _ fun _ _ => Exec.fail e)
        (fun _ => evalOr_of_not (not_not_intro (And.intro rfl rfl)))
        fun _ _ _ hne => evalOr_of_holds hne)
  cases (hfails .stackOverflow).symm.trans (hfails .globalScopeCleared)

/-! ## Sessions -/

/-- The machines of a session between its runs. Failed runs count; runs that do not end do not. -/
inductive Idle : Machine → Prop
  | new (files : Files) (console : Console) : Idle (.new files console)
  | run {m m' : Machine} {fuel : Nat} {source : String} {ending : Ending} (h : Idle m)
      (hrun : m.runWith fuel source = (ending, m')) (hends : ending ≠ .unfinished) : Idle m'
  | recover {m : Machine} (h : Idle m) : Idle m.recover

/-- A run refuses a source text and changes nothing, or it runs the program that the text holds. -/
theorem Machine.runWith_cases {m m' : Machine} {fuel : Nat} {source : String} {ending : Ending}
    (hrun : m.runWith fuel source = (ending, m')) :
    ((∃ e, Program.ofSource source = .error e) ∧ m' = m) ∨
      ∃ program, Program.ofSource source = .ok program ∧
        m' = (runProgram (eval fuel) program m).machine := by
  unfold Machine.runWith at hrun
  cases hparse : Program.ofSource source with
  | error e =>
    rw [hparse] at hrun
    cases hrun
    exact .inl ⟨⟨e, rfl⟩, rfl⟩
  | ok program =>
    rw [hparse] at hrun
    refine .inr ⟨program, rfl, ?_⟩
    dsimp only at hrun
    rcases hend : runProgram (eval fuel) program m with ⟨_ | _ | _, m''⟩ <;>
      rw [hend] at hrun <;> cases hrun <;> rfl

/-- The machines that a session can get to: those between runs, and those on which a node is
evaluated in the course of a run. -/
inductive Reachable : Machine → Prop
  | idle {m : Machine} (h : Idle m) : Reachable m
  | within {m there : Machine} {fuel : Nat} {source : String} {program : Program} {node : Node}
      (h : Idle m) (hparse : Program.ofSource source = .ok program)
      (hgets : GetsTo fuel (runProgram · program) m node there) : Reachable there

/-! ## Contracts hold throughout -/

namespace Contract

variable {C : Contract} {N S : Node → Prop}

/-- **Every evaluation keeps a contract that allows all steps**, and does not get to where the
invariant does not hold. -/
theorem Frames.kept_eval (F : C.Frames N S) (hP : ∀ node m, S node → C.inv m → P node m)
    (other : Nat → Evaluator) (fuel : Nat) {node : Node} (hnode : S node) :
    C.Kept (evalOr P other fuel node) (eval fuel node) := by
  induction fuel generalizing node with
  | zero => exact kept_of_unchanged F.toLawful fun _ => rfl
  | succ fuel ih =>
    intro m hm
    rw [evalOr_of_holds (hP node m hnode hm)]
    exact F.kept_evalNode (fun _ hn => ih hn) hnode fuel m hm

/-- What both sides of a strict contract do from a machine in the invariant is the same. -/
theorem Kept.eq {x y : Exec α} (h : C.Kept x y) (strict : ¬C.lax) {m : Machine} (hm : C.inv m) :
    x m = y m := by
  rcases (h m hm).same with ⟨lax, -⟩ | same
  · exact absurd lax strict
  · exact same

/-- An evaluation moves the machine as a contract says that all steps keep. -/
theorem Frames.moves_eval (F : C.Frames N S) {m : Machine} (hm : C.inv m) (fuel : Nat)
    {node : Node} (hnode : S node) : C.Moves m (eval fuel node m).machine := by
  have kept := F.kept_eval (P := fun _ _ => True) (fun _ _ _ _ => trivial) (fun _ => eval 0) fuel
    hnode
  exact (kept m hm).moves

/-- What a contract gives on every machine with its invariant holds throughout an evaluation. -/
theorem Frames.throughout_eval (F : C.Frames N S) (strict : ¬C.lax)
    (hP : ∀ node m, S node → C.inv m → P node m) {m : Machine} (hm : C.inv m) (fuel : Nat)
    {node : Node} (hnode : S node) : Throughout P fuel (· node) m :=
  fun other => (F.kept_eval hP other fuel hnode).eq strict hm

theorem Frames.moves_runProgram (F : C.Frames N S) {m : Machine} (hm : C.inv m) (fuel : Nat)
    {program : Program} (hprogram : ∀ n ∈ program, S n) :
    C.Moves m (runProgram (eval fuel) program m).machine := by
  have kept := kept_runProgram F.toGround fun n hn => F.kept_eval (P := fun _ _ => True)
    (fun _ _ _ _ => trivial) (fun _ => eval 0) fuel (hprogram n hn)
  exact (kept m hm).moves

theorem Frames.throughout_runProgram (F : C.Frames N S) (strict : ¬C.lax)
    (hP : ∀ node m, S node → C.inv m → P node m) {m : Machine} (hm : C.inv m) (fuel : Nat)
    {program : Program} (hprogram : ∀ n ∈ program, S n) :
    Throughout P fuel (runProgram · program) m :=
  fun other => (kept_runProgram F.toGround fun n hn =>
    F.kept_eval hP other fuel (hprogram n hn)).eq strict hm

/-- Whether it reads the source text or not, a run keeps what the steps of its program keep. -/
theorem Frames.moves_runWith (F : C.Frames N S) (L : Language N S) {m m' : Machine} (hm : C.inv m)
    {fuel : Nat} {source : String} {ending : Ending}
    (hrun : m.runWith fuel source = (ending, m')) : C.Moves m m' := by
  rcases Machine.runWith_cases hrun with ⟨-, rfl⟩ | ⟨program, hparse, rfl⟩
  · exact Moves.refl F.toLawful hm
  · exact F.moves_runProgram hm fuel (L.parsed hparse)

theorem Frames.inv_of_idle (F : C.Frames N S) (L : Language N S)
    (hnew : ∀ files console, C.inv (.new files console))
    (hrecover : ∀ m, Idle m → C.inv m → C.inv m.recover) {m : Machine} (h : Idle m) : C.inv m := by
  induction h with
  | new files console => exact hnew files console
  | recover h ih => exact hrecover _ h ih
  | run _ hrun _ ih => exact (F.moves_runWith L ih hrun).inv

/-- **What a contract keeps holds on every machine that a session can get to.** -/
theorem Frames.inv_of_reachable (F : C.Frames N S) (L : Language N S) (strict : ¬C.lax)
    (hnew : ∀ files console, C.inv (.new files console))
    (hrecover : ∀ m, Idle m → C.inv m → C.inv m.recover) {m : Machine} (h : Reachable m) :
    C.inv m := by
  cases h with
  | idle h => exact F.inv_of_idle L hnew hrecover h
  | @within m₀ _ fuel source program node h hparse hgets =>
    have hm := F.inv_of_idle L hnew hrecover h
    exact (F.throughout_runProgram strict (fun _ _ _ h => h) hm fuel
      (L.parsed hparse)).getsTo hgets

/-! ## Runs that keep to a scope -/

/-- A computation keeps a contract from a machine as soon as the evaluator that it is given does. -/
def Lifts (C : Contract) (S : Node → Prop) (x : Evaluator → Exec α) (m : Machine) : Prop :=
  ∀ ev ev' : Evaluator, (∀ node, S node → C.Kept (ev node) (ev' node)) →
    C.Meets m (x ev m) (x ev' m)

theorem lifts_eval {node : Node} (hnode : S node) {m : Machine} (hm : C.inv m) :
    C.Lifts S (· node) m := fun _ _ h => h node hnode m hm

/-- A call of a method, from a machine that need not be in the invariant itself. -/
theorem lifts_runMethod (F : C.Ground N S) {h : Handle} {routine : Routine} {locals : Locals}
    {args : List Value} {m : Machine} (hbody : Routine.BodyIn S routine)
    (hruns : ∀ ev, runMethod ev h routine args m = Exec.closing (runBody ev routine args)
      (m.returned h routine.signature locals) (m.entered h routine.signature locals))
    (henter : C.inv (m.entered h routine.signature locals))
    (hleave : ∀ left, C.Moves (m.entered h routine.signature locals) left →
      C.Allows m (m.returned h routine.signature locals left)) :
    C.Lifts S (runMethod · h routine args) m := by
  intro ev ev' hkept
  have hmeets := (kept_runBody F (fun n hn => hkept n (hbody n hn)) args).closing henter
    fun left moves => ⟨hleave left moves, rfl, ?_⟩
  · show C.Meets m (runMethod ev h routine args m) (runMethod ev' h routine args m)
    rw [hruns ev, hruns ev']
    exact hmeets
  · show left.depth - 1 = m.depth
    rw [moves.restored.depth]
    rfl

end Contract

namespace Tracked

variable {T : Tracked} {N S : Node → Prop}

/-- A computation keeps a contract that follows values as soon as the evaluator that it is given
does. -/
def Lifts (T : Tracked) (S : Node → Prop) (x : Evaluator → Exec α) (m : Machine) : Prop :=
  ∀ ev ev' : Evaluator, (∀ node, S node → T.Yields T.Clean (ev node) (ev' node)) →
    T.Meets m (x ev m) (x ev' m)

theorem lifts_runBody (F : T.Ground N S) {routine : Routine} (hbody : routine.BodyIn S)
    {args : List Value} (hargs : ∀ v ∈ args, T.Clean v) {m : Machine} (hm : T.inv m) :
    T.Lifts S (runBody · routine args) m :=
  fun _ _ h => (yields_runBody F (fun n hn => (h n (hbody n hn)).kept) hargs m hm).toMeets

theorem lifts_runProgram (F : T.Ground N S) {program : Program} (hprogram : ∀ n ∈ program, S n)
    {m : Machine} (hm : T.inv m) : T.Lifts S (α := Unit) (runProgram · program) m :=
  fun _ _ h =>
    kept_runProgram F.toSteps F.dropSignal (fun n hn => (h n (hprogram n hn)).kept) m hm

/-- **An evaluation that is cut off where it leaves the scope keeps the contract**, and gives a
value that code may get hold of. -/
theorem Rules.yields_evalWhile (F : T.Rules N S) (W : ∀ fuel, T.Writable (evalWhile T.scope fuel))
    (lax : T.lax)
    (hP : ∀ node m, S node → T.scope node m → T.inv m → P node m) (other : Nat → Evaluator)
    (fuel : Nat) {node : Node} (hnode : S node) :
    T.Yields T.Clean (evalOr P other fuel node) (evalWhile T.scope fuel node) := by
  induction fuel generalizing node with
  | zero =>
    intro m hm
    exact ⟨Contract.kept_of_unchanged F.toLawful (fun _ => rfl) m hm, nofun⟩
  | succ fuel ih =>
    intro m hm
    by_cases hscope : T.scope node m
    · rw [evalOr_of_holds (hP node m hnode hscope hm), evalWhile_of_holds hscope]
      exact F.gives_evalNode (W fuel) (fun _ hn => ih hn) hnode fuel hm hscope
    · rw [evalWhile_of_not hscope]
      exact ⟨⟨.inl ⟨lax, rfl⟩, Contract.Moves.refl F.toLawful hm⟩, nofun⟩

/-- What a contract says of the end of a computation that has kept to its scope. -/
theorem Rules.moves_of_throughout (F : T.Rules N S)
    (W : ∀ fuel, T.Writable (evalWhile T.scope fuel)) (lax : T.lax) {x : Evaluator → Exec α}
    {m : Machine} {fuel : Nat} (hx : T.Lifts S x m) (hscope : Throughout T.scope fuel x m) :
    T.Moves m (x (eval fuel) m).machine := by
  have hkept := hx _ _ fun _ hn => F.yields_evalWhile W lax (P := fun _ _ => True)
    (fun _ _ _ _ _ => trivial) (fun _ => eval 0) fuel hn
  have same : x (evalWhile T.scope fuel) m = x (eval fuel) m := hscope _
  rw [← same]
  exact hkept.moves

/-- **Every evaluation keeps a contract that allows all steps** and has all nodes in its scope,
gives a value that code may get hold of, and does not get to where the invariant does not hold. -/
theorem Rules.yields_eval (F : T.Rules N S) (W : ∀ fuel, T.Writable (eval fuel))
    (everywhere : ∀ node m, T.scope node m) (hP : ∀ node m, S node → T.inv m → P node m)
    (other : Nat → Evaluator) (fuel : Nat) {node : Node} (hnode : S node) :
    T.Yields T.Clean (evalOr P other fuel node) (eval fuel node) := by
  induction fuel generalizing node with
  | zero =>
    intro m hm
    exact ⟨Contract.kept_of_unchanged F.toLawful (fun _ => rfl) m hm, nofun⟩
  | succ fuel ih =>
    intro m hm
    rw [evalOr_of_holds (hP node m hnode hm)]
    exact F.gives_evalNode (W fuel) (fun _ hn => ih hn) hnode fuel hm (everywhere node m)

/-- Where the invariant holds in the course of a computation. -/
theorem Rules.throughout_of_lifts (F : T.Rules N S) (W : ∀ fuel, T.Writable (eval fuel))
    (everywhere : ∀ node m, T.scope node m) (strict : ¬T.lax)
    (hP : ∀ node m, S node → T.inv m → P node m) {x : Evaluator → Exec α} {m : Machine}
    {fuel : Nat} (hx : T.Lifts S x m) : Throughout P fuel x m := by
  intro other
  have hkept := hx _ _ fun _ hn => F.yields_eval W everywhere hP other fuel hn
  exact hkept.same.resolve_left fun h => strict h.1

end Tracked

namespace Contract

variable {C : Contract} {N S : Node → Prop}

/-- **An evaluation that is cut off where it leaves the scope keeps the contract.** -/
theorem Rules.kept_evalWhile (F : C.Rules N S) (lax : C.lax)
    (hP : ∀ node m, S node → C.scope node m → C.inv m → P node m) (other : Nat → Evaluator)
    (fuel : Nat) {node : Node} (hnode : S node) :
    C.Kept (evalOr P other fuel node) (evalWhile C.scope fuel node) :=
  (F.plain.yields_evalWhile (fun _ => writable_plain C _) lax hP other fuel hnode).kept

section Scope

variable {x : Evaluator → Exec α} {m : Machine} {fuel : Nat}

/-- What a contract says of the end of a computation that has kept to its scope. -/
theorem Rules.moves_of_throughout (F : C.Rules N S) (lax : C.lax) (hx : C.Lifts S x m)
    (hscope : Throughout C.scope fuel x m) : C.Moves m (x (eval fuel) m).machine :=
  F.plain.moves_of_throughout (fun _ => writable_plain C _) lax
    (fun ev ev' h => hx ev ev' fun n hn => (h n hn).kept) hscope

/-- What a contract says of the course of a computation that has kept to its scope. -/
theorem Rules.throughout_of_throughout (F : C.Rules N S) (lax : C.lax) (hx : C.Lifts S x m)
    (hscope : Throughout C.scope fuel x m) (hends : (x (eval fuel) m).result ≠ .unfinished)
    (hP : ∀ node m, S node → C.scope node m → C.inv m → P node m) : Throughout P fuel x m := by
  intro other
  have hkept := hx _ _ fun _ hn => F.kept_evalWhile lax hP other fuel hn
  have same : x (evalWhile C.scope fuel) m = x (eval fuel) m := hscope _
  rw [same] at hkept
  exact hkept.same.resolve_left fun h => hends h.2

end Scope

/-- The contract that says nothing, about runs that keep to `P`. -/
def anyContract (P : Node → Machine → Prop) : Contract where
  lax := True
  inv _ := True
  rel _ _ := True
  scope := P

theorem any_rules (P : Node → Machine → Prop) : (anyContract P).Rules AnyNode AnyNode where
  fragment := anyNode_language.toFragment
  scripts {m} _ := anyNode_language.scriptsIn m
  code {m} _ := m.codeIn_any
  refl _ := trivial
  trans _ _ := trivial
  named _ _ _ := trivial
  fresh _ _ := trivial
  console _ _ := ⟨trivial, trivial⟩
  assign _ _ _ _ := ⟨trivial, trivial⟩
  declare _ _ _ := ⟨trivial, trivial⟩
  register _ _ _ _ := ⟨trivial, trivial⟩
  extend _ _ _ _ := ⟨trivial, trivial⟩
  allocate _ _ _ _ _ := ⟨trivial, trivial⟩
  setField _ _ _ _ := ⟨trivial, trivial⟩
  linkIn _ _ := trivial
  linkOut _ _ _ := ⟨trivial, trivial⟩
  linkRefused _ := ⟨trivial, trivial⟩
  push _ _ := ⟨trivial, trivial⟩
  dropSignal _ := ⟨trivial, trivial⟩
  bindParams _ _ _ := ⟨trivial, trivial⟩
  scopeIn _ _ := trivial
  scopeOut _ _ _ := ⟨trivial, trivial⟩
  clauseIn _ := trivial
  clauseOut _ _ := ⟨trivial, trivial⟩
  callIn _ _ := trivial
  callOut _ _ _ := ⟨trivial, trivial⟩
  fork _ := trivial
  merge _ _ := ⟨trivial, trivial⟩
  discard _ _ _ := ⟨trivial, trivial⟩
  enters _ := ⟨fun _ _ => trivial, fun _ _ _ => ⟨trivial, trivial⟩⟩

end Contract

/-- An evaluation that gives up nowhere is an evaluation. -/
theorem evalWhile_eq {fuel : Nat} {node : Node} {m : Machine}
    (h : (evalWhile P fuel node m).result ≠ .unfinished) :
    evalWhile P fuel node m = eval fuel node m := by
  have hkept := (Contract.any_rules P).kept_evalWhile trivial (P := fun _ _ => True)
    (fun _ _ _ _ _ => trivial) (fun _ => eval 0) fuel (anyNode node) m trivial
  have hsame := hkept.same.resolve_left fun hlax => h hlax.2
  exact hsame.symm.trans (congrFun (congrFun (evalOr_true _ fuel) node) m)

end BoxScript
