import BoxScript.Proofs.Course

/-!
# A `return` in a clause of a `for`

The clauses of a `for` are statements, so a clause may execute a `return`. That leaves a signal, as
it does everywhere, but a loop looks for signals only after the statements of its body. So a loop
does not end where a clause of it returns. It tests its condition once more, and if that holds, the
first statement of the body runs before the signal is noticed. Nothing of the loop runs after the
`return` exactly if the condition happens to be false there.
-/

namespace BoxScript

/-- The parts of a `for`. -/
structure ForLoop where
  init : Node
  condition : Node
  increment : Node
  body : List Node

namespace ForLoop

/-- The statement. -/
def node (loop : ForLoop) : Node := .forDo loop.init loop.condition loop.increment loop.body

/-- One of the clauses. -/
def clause (ev : Evaluator) (statement : Node) : Exec Unit :=
  Exec.asClause (ev statement >>= fun _ => pure ())

/-- The rounds of a loop, from a test of the condition on. -/
def rounds (loop : ForLoop) (ev : Evaluator) (left : Nat) : Exec Unit :=
  repeatWhile (holds ev loop.condition) (runBlock ev loop.body) (clause ev loop.increment) left

/-- A loop on the machine `m` has come to the end of a clause, on the machine `there`, and has so
many rounds left. -/
inductive AfterClause (loop : ForLoop) (ev : Evaluator) (fuel : Nat) (m : Machine) :
    Nat → Machine → Prop
  | init {there : Machine}
      (h : clause ev loop.init (m.atLevel (m.context.level + 1)) = ⟨.ok (), there⟩) :
      AfterClause loop ev fuel m fuel there
  | increment {left : Nat} {there tested ran next : Machine}
      (before : AfterClause loop ev fuel m (left + 1) there)
      (htest : holds ev loop.condition there = ⟨.ok true, tested⟩)
      (hbody : runBlock ev loop.body tested = ⟨.ok false, ran⟩)
      (hstep : clause ev loop.increment ran = ⟨.ok (), next⟩) : AfterClause loop ev fuel m left next

/-- A loop that has begun without signals has come to the end of a clause that has left one. -/
structure ClauseReturned (loop : ForLoop) (fuel : Nat) (m : Machine) (left : Nat)
    (there : Machine) : Prop where
  begins : m.returns = []
  after : loop.AfterClause (eval fuel) fuel m left there
  pending : there.pending = true

end ForLoop

/-! ## The rounds -/

namespace ForLoop

variable {loop : ForLoop} {ev ev' : Evaluator} {fuel left : Nat} {m there tested : Machine}

theorem rounds_succ (loop : ForLoop) (ev : Evaluator) (left : Nat) :
    loop.rounds ev (left + 1) = holds ev loop.condition >>= fun goesOn =>
      if goesOn then (runBlock ev loop.body : Exec Bool) >>= fun stops =>
        if stops then pure () else clause ev loop.increment >>= fun _ => loop.rounds ev left
      else pure () := Contract.repeatWhile_succ _ _ _ _

theorem rounds_of_true (htest : holds ev loop.condition there = ⟨.ok true, tested⟩) :
    loop.rounds ev (left + 1) there = ((runBlock ev loop.body : Exec Bool) >>= fun stops : Bool =>
      if stops then pure () else clause ev loop.increment >>= fun _ => loop.rounds ev left)
        tested := by
  rw [rounds_succ]
  exact Exec.bind_ok htest

theorem rounds_of_false (htest : holds ev loop.condition there = ⟨.ok false, tested⟩) :
    loop.rounds ev (left + 1) there = ⟨.ok (), tested⟩ := by
  rw [rounds_succ]
  exact Exec.bind_ok htest

theorem rounds_of_error {e : RuntimeError}
    (htest : holds ev loop.condition there = ⟨.error e, tested⟩) :
    loop.rounds ev (left + 1) there = ⟨.error e, tested⟩ := by
  rw [rounds_succ]
  exact Exec.bind_error htest

/-- A block ends after its first statement if a signal is pending then. -/
theorem runBlock_of_pending {first : Node} {rest : List Node} {v : Value} {ran : Machine}
    (hfirst : ev first tested = ⟨.ok v, ran⟩) (hpending : ran.pending = true) :
    runBlock ev (first :: rest) tested = ⟨.ok true, ran⟩ := by
  rw [runBlock, hfirst]
  dsimp only
  rw [hpending, if_pos rfl]

/-- A pending signal stops the loop behind the first statement of the body, not in front of it. -/
theorem rounds_of_pending {first : Node} {rest : List Node} {v : Value} {ran : Machine}
    (htest : holds ev loop.condition there = ⟨.ok true, tested⟩) (hbody : loop.body = first :: rest)
    (hfirst : ev first tested = ⟨.ok v, ran⟩) (hpending : ran.pending = true) :
    loop.rounds ev (left + 1) there = ⟨.ok (), ran⟩ := by
  rw [rounds_of_true htest, hbody]
  exact Exec.bind_ok (runBlock_of_pending hfirst hpending)

/-- A body that cannot end well tells whether the condition is true. -/
theorem holds_false_of_rounds {first : Node} {rest : List Node}
    (hrounds : loop.rounds ev (left + 1) there = ⟨.ok (), tested⟩)
    (hbody : loop.body = first :: rest) (hfirst : ∀ m v m', ev first m ≠ ⟨.ok v, m'⟩) :
    holds ev loop.condition there = ⟨.ok false, tested⟩ := by
  rw [rounds_succ, Exec.bind_apply] at hrounds
  generalize holds ev loop.condition there = o at hrounds
  rcases o with ⟨(_ | _) | _ | _, m⟩
  · cases hrounds
    rfl
  · dsimp only at hrounds
    rw [if_pos rfl, hbody, Contract.runBlock_cons, Exec.bind_apply, Exec.bind_apply] at hrounds
    rcases hv : ev first m with ⟨v | _ | _, ran⟩
    · exact absurd hv (hfirst m v ran)
    · rw [hv] at hrounds
      cases hrounds
    · rw [hv] at hrounds
      cases hrounds
  · cases hrounds
  · cases hrounds

/-- **A loop that has come to the end of a clause goes on with its rounds from there.** -/
theorem AfterClause.runFor_eq (h : loop.AfterClause ev fuel m left there) :
    runFor ev fuel loop.init loop.condition loop.increment loop.body m
      = Exec.closing (loop.rounds ev left) (·.closeTo m.context.level) there := by
  induction h with
  | init h =>
    unfold runFor Exec.inBlock Exec.closing
    dsimp only
    rw [show (Exec.asClause (ev loop.init >>= fun _ => pure ()) >>= fun _ =>
      repeatWhile (holds ev loop.condition) (runBlock ev loop.body)
        (Exec.asClause (ev loop.increment >>= fun _ => pure ())) fuel) _ = _ from Exec.bind_ok h]
    rfl
  | increment before htest hbody hstep ih =>
    rw [ih]
    unfold Exec.closing
    rw [rounds_of_true htest, Exec.bind_ok hbody]
    dsimp only
    rw [if_neg Bool.false_ne_true, Exec.bind_ok hstep]

end ForLoop

/-! ## Runs that are cut off -/

/-- Nothing is asked of the machines; only the second computation may go on forever. -/
def looseContract : Contract where
  lax := True
  inv _ := True
  rel _ _ := True

/-- Every step keeps a contract that asks for nothing but the same course. -/
theorem loose_frames : looseContract.Frames AnyNode AnyNode where
  everywhere := ⟨fun _ _ => trivial, fun _ _ => trivial⟩
  fragment := anyNode_language.toFragment
  scripts {m} _ := anyNode_language.scriptsIn m
  refl _ := trivial
  trans _ _ := trivial
  code {m} _ := m.codeIn_any
  console _ _ := ⟨trivial, trivial⟩
  assign _ _ _ _ := ⟨trivial, trivial⟩
  declare _ _ _ := ⟨trivial, trivial⟩
  register _ _ _ _ := ⟨trivial, trivial⟩
  extend _ _ _ _ := ⟨trivial, trivial⟩
  allocate _ _ _ _ _ := ⟨trivial, trivial⟩
  setField _ _ _ _ := ⟨trivial, trivial⟩
  linkIn _ _ := trivial
  linkOut _ _ _ := ⟨trivial, trivial⟩
  linkRefused _ := ⟨trivial, trivial⟩
  push _ _ := ⟨trivial, trivial⟩
  dropSignal _ := ⟨trivial, trivial⟩
  bindParams _ _ _ := ⟨trivial, trivial⟩
  scopeIn _ _ := trivial
  scopeOut _ _ _ := ⟨trivial, trivial⟩
  clauseIn _ := trivial
  clauseOut _ _ := ⟨trivial, trivial⟩
  callIn _ _ := trivial
  callOut _ _ _ := ⟨trivial, trivial⟩
  methodIn _ _ := trivial
  methodOut _ _ _ := ⟨trivial, trivial⟩
  fork _ := trivial
  merge _ _ := ⟨trivial, trivial⟩
  discard _ _ _ := ⟨trivial, trivial⟩

theorem Contract.Kept.unfinished_or_eq {α : Type} {x y : Exec α} (h : looseContract.Kept x y)
    (m : Machine) : (y m).result = .unfinished ∨ y m = x m := by
  rcases (h m trivial).same with ⟨-, hends⟩ | same
  · exact .inl hends
  · exact .inr same.symm

/-- Where an evaluation is not cut off, it is as it is. -/
theorem kept_evalWhile (P : Node → Machine → Prop) (fuel : Nat) (node : Node) :
    looseContract.Kept (eval fuel node) (evalWhile P fuel node) := by
  induction fuel generalizing node with
  | zero => exact Contract.kept_of_unchanged loose_frames.toLawful fun _ => rfl
  | succ fuel ih =>
    intro m hm
    by_cases hp : P node m
    · rw [evalWhile_of_holds hp]
      exact loose_frames.kept_evalNode (fun n _ => ih n) (anyNode node) fuel m hm
    · rw [evalWhile_of_not hp]
      exact ⟨.inl ⟨trivial, rfl⟩, Contract.Moves.refl loose_frames.toLawful hm⟩

namespace ForLoop

variable {loop : ForLoop} {ev ev' : Evaluator} {fuel left : Nat} {m there tested : Machine}

/-- A loop that is cut off somewhere comes to the end of a clause as the loop does, or it is cut off
on the way. -/
theorem AfterClause.unfinished_or (hkept : ∀ n, looseContract.Kept (ev n) (ev' n))
    (h : loop.AfterClause ev fuel m left there) :
    (runFor ev' fuel loop.init loop.condition loop.increment loop.body m).result = .unfinished ∨
      loop.AfterClause ev' fuel m left there := by
  have law := loose_frames.toLawful
  have hclause : ∀ n, looseContract.Kept (clause ev n) (clause ev' n) := by
    intro n
    exact Contract.kept_asClause loose_frames.toScoped
      ((hkept n).bind law fun _ => Contract.kept_pure law ())
  have hholds := Contract.kept_holds law (hkept loop.condition)
  have hblock : looseContract.Kept (α := Bool) (runBlock ev loop.body) (runBlock ev' loop.body) :=
    Contract.kept_runBlock law fun n _ => hkept n
  -- by the rounds before the place in question: cut off in one of them, or the same up to there
  induction h with
  | init h =>
    rcases (hclause loop.init).unfinished_or_eq (m.atLevel (m.context.level + 1)) with hends | same
    · exact .inl (Exec.bind_unfinished hends)
    · exact .inr (.init (same.trans h))
  | @increment left there tested ran next _ htest hbody hstep ih =>
    rcases ih with hends | before
    · exact .inl hends
    have hcut : (loop.rounds ev' (left + 1) there).result = .unfinished → (runFor ev' fuel loop.init
        loop.condition loop.increment loop.body m).result = .unfinished := by
      intro hends
      rw [before.runFor_eq]
      exact hends
    -- every part of the round is cut off or as it is
    rcases hholds.unfinished_or_eq there with hends | same
    · refine .inl (hcut ?_)
      rw [rounds_succ]
      exact Exec.bind_unfinished hends
    have htest' := same.trans htest
    rcases hblock.unfinished_or_eq tested with hends | same
    · refine .inl (hcut ?_)
      rw [rounds_of_true htest']
      exact Exec.bind_unfinished hends
    have hbody' := same.trans hbody
    rcases (hclause loop.increment).unfinished_or_eq ran with hends | same
    · refine .inl (hcut ?_)
      rw [rounds_of_true htest', Exec.bind_ok hbody']
      exact Exec.bind_unfinished hends
    exact .inr (.increment before htest' hbody' (same.trans hstep))

/-- A loop gets to everything that the rounds after a clause do not end without. -/
theorem AfterClause.getsTo (h : loop.AfterClause (eval fuel) fuel m left there)
    (hends : (eval (fuel + 1) loop.node m).result ≠ .unfinished) {node : Node} {place : Machine}
    (hneeds : ∀ ev', (∀ n, looseContract.Kept (eval fuel n) (ev' n)) →
      ev' node place = ⟨.unfinished, place⟩ → (loop.rounds ev' left there).result = .unfinished) :
    GetsTo (fuel + 1) (· loop.node) m node place := by
  intro avoided
  have same : evalWhile (fun n t => ¬(n = node ∧ t = place)) (fuel + 1) loop.node m
      = eval (fuel + 1) loop.node m := avoided _
  refine hends ?_
  rw [← same]
  by_cases hfirst : loop.node = node ∧ m = place
  · rw [evalWhile_of_not (not_not_intro hfirst)]
  rw [evalWhile_of_holds hfirst]
  refine Exec.bind_unfinished (x := runFor _ fuel loop.init loop.condition loop.increment
    loop.body) ?_
  have hkept := kept_evalWhile (fun n t => ¬(n = node ∧ t = place)) fuel
  rcases h.unfinished_or hkept with hcut | h'
  · exact hcut
  · rw [h'.runFor_eq]
    exact hneeds _ hkept (evalWhile_of_not (not_not_intro ⟨rfl, rfl⟩))

end ForLoop

/-! ## What follows the `return` -/

namespace ForLoop

variable {loop : ForLoop} {fuel left : Nat} {m there tested : Machine}

/-- The rounds that are left change nothing, whatever there is to do in them, and one signal is
pending. -/
def StopsAt (loop : ForLoop) (fuel left : Nat) (there : Machine) : Prop :=
  there.returns.length = 1 ∧ ∀ increment body,
    rounds { loop with increment, body } (eval fuel) left there = ⟨.ok (), there⟩

/-- What a loop on the machine `m` does after a clause of it has returned, on the machine `there`
and with at most `left + 1` rounds to go. -/
structure GoesOn (loop : ForLoop) (fuel : Nat) (m : Machine) (left : Nat) (there : Machine) :
    Prop where
  /-- The condition is evaluated again. -/
  tests : (eval (fuel + 1) loop.node m).result ≠ .unfinished →
    GetsTo (fuel + 1) (· loop.node) m loop.condition there
  /-- If it is true, the first statement of the body is evaluated. -/
  runs : ∀ {first rest tested}, (eval (fuel + 1) loop.node m).result ≠ .unfinished →
    holds (eval fuel) loop.condition there = ⟨.ok true, tested⟩ → loop.body = first :: rest →
    GetsTo (fuel + 1) (· loop.node) m first tested
  /-- Only then does the loop end, if the signal is still pending. -/
  stops : ∀ {first rest tested v ran},
    holds (eval fuel) loop.condition there = ⟨.ok true, tested⟩ → loop.body = first :: rest →
    eval fuel first tested = ⟨.ok v, ran⟩ → ran.pending = true →
    eval (fuel + 1) loop.node m = ⟨.ok .void, ran.closeTo m.context.level⟩
  /-- If the condition is false, the loop ends with the signals that it leaves. -/
  ends : ∀ {tested}, holds (eval fuel) loop.condition there = ⟨.ok false, tested⟩ →
    eval (fuel + 1) loop.node m = ⟨.ok .void, tested.closeTo m.context.level⟩
  /-- If the condition fails, so does the loop. -/
  fails : ∀ {e tested}, holds (eval fuel) loop.condition there = ⟨.error e, tested⟩ →
    eval (fuel + 1) loop.node m = ⟨.error e, tested.closeTo m.context.level⟩
  /-- The loop stops at the clause exactly if there is one signal, and the condition is false and
  does nothing else. -/
  harmless : loop.StopsAt fuel (left + 1) there ↔ there.returns.length = 1 ∧
    holds (eval fuel) loop.condition there = ⟨.ok false, there⟩

/-- A loop that ends from there on ends as a statement. -/
theorem AfterClause.eval_of_ok {ended : Machine}
    (h : loop.AfterClause (eval fuel) fuel m left there)
    (hrounds : loop.rounds (eval fuel) left there = ⟨.ok (), ended⟩) :
    eval (fuel + 1) loop.node m = ⟨.ok .void, ended.closeTo m.context.level⟩ := by
  have hfor := h.runFor_eq
  unfold Exec.closing at hfor
  rw [hrounds] at hfor
  exact Exec.bind_ok hfor

theorem AfterClause.eval_of_error {ended : Machine} {e : RuntimeError}
    (h : loop.AfterClause (eval fuel) fuel m left there)
    (hrounds : loop.rounds (eval fuel) left there = ⟨.error e, ended⟩) :
    eval (fuel + 1) loop.node m = ⟨.error e, ended.closeTo m.context.level⟩ := by
  have hfor := h.runFor_eq
  unfold Exec.closing at hfor
  rw [hrounds] at hfor
  exact Exec.bind_error hfor

/-- A `throw` has no value. -/
theorem evalNode_raise_ne_ok (ev : Evaluator) (fuel : Nat) (message : Node) (m : Machine)
    (v : Value) (m' : Machine) : evalNode ev fuel (.raise message) m ≠ ⟨.ok v, m'⟩ := by
  intro h
  change ((ev message >>= fun v => Exec.look (fun m : Machine => m.heap.text v) >>= fun text =>
    Exec.fail (.thrown text)) : Exec Value) m = _ at h
  rw [Exec.bind_apply] at h
  generalize ev message m = o at h
  rcases o with ⟨_ | _ | _, _⟩ <;> cases h

/-- To stop at the signal of a clause takes one signal and a test that fails without a trace. -/
theorem stopsAt_iff : loop.StopsAt fuel (left + 1) there ↔
    there.returns.length = 1 ∧ holds (eval fuel) loop.condition there = ⟨.ok false, there⟩ := by
  constructor
  · rintro ⟨hone, hrounds⟩
    refine ⟨hone, ?_⟩
    have hthrow : ∀ m v m', eval fuel (.raise (.str "")) m ≠ ⟨.ok v, m'⟩ := by
      intro m v m'
      cases fuel with
      | zero => exact nofun
      | succ fuel => exact evalNode_raise_ne_ok _ fuel _ m v m'
    -- the body does not matter, so take one that throws
    have hfalse := holds_false_of_rounds (hrounds loop.increment [.raise (.str "")]) rfl hthrow
    exact hfalse
  · rintro ⟨hone, htest⟩
    exact ⟨hone, fun increment body => rounds_of_false htest⟩

/-- **A `return` in a clause does not end the loop.** However a loop that has begun without signals
has come to a clause that left one, it goes on. -/
theorem goesOn_of_clauseReturned (h : loop.ClauseReturned fuel m (left + 1) there) :
    loop.GoesOn fuel m left there where
  tests hends := by
    refine h.after.getsTo hends fun ev' _ hcut => ?_
    rw [rounds_succ]
    refine Exec.bind_unfinished (Exec.bind_unfinished ?_)
    rw [hcut]
  runs := by
    intro first rest tested hends htest hbody
    refine h.after.getsTo hends fun ev' hkept hcut => ?_
    have hholds := Contract.kept_holds loose_frames.toLawful (hkept loop.condition)
    rcases hholds.unfinished_or_eq there with hcut' | same
    · rw [rounds_succ]
      exact Exec.bind_unfinished hcut'
    · rw [rounds_of_true (same.trans htest), hbody, Contract.runBlock_cons]
      refine Exec.bind_unfinished (Exec.bind_unfinished ?_)
      rw [hcut]
  stops htest hbody hfirst hpending :=
    h.after.eval_of_ok (rounds_of_pending htest hbody hfirst hpending)
  ends htest := h.after.eval_of_ok (rounds_of_false htest)
  fails htest := h.after.eval_of_error (rounds_of_error htest)
  harmless := stopsAt_iff

/-- A loop whose first clause returns, on a new machine, and which prints something after that. -/
theorem goesOn_of_clauseReturned_printing :
    ∃ there, ClauseReturned ⟨.giveBack (some (.int 1)), .int 1, .assign "i" (.int 1),
        [.print (.str "ran") true]⟩ 3 (.new .empty (.ofBytes [])) 3 there ∧
      GetsTo 4 (· (.forDo (.giveBack (some (.int 1))) (.int 1) (.assign "i" (.int 1))
        [.print (.str "ran") true])) (.new .empty (.ofBytes [])) (.print (.str "ran") true)
        there := by
  have h : ClauseReturned ⟨.giveBack (some (.int 1)), .int 1, .assign "i" (.int 1),
      [.print (.str "ran") true]⟩ 3 (.new .empty (.ofBytes [])) 3 _ := ⟨rfl, .init rfl, rfl⟩
  have hends : (eval 4 (.forDo (.giveBack (some (.int 1))) (.int 1) (.assign "i" (.int 1))
      [.print (.str "ran") true]) (.new .empty (.ofBytes []))).result = .ok .void := rfl
  refine ⟨_, h, (goesOn_of_clauseReturned h).runs (fun hnot => ?_) rfl rfl⟩
  cases hends.symm.trans hnot

end ForLoop

end BoxScript
