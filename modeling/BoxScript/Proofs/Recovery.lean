import BoxScript.Proofs.Activations
import BoxScript.Proofs.Discipline

/-!
# Signals after a failure

A session that goes on after a failed run recovers first: it drops the signals on its own stack, and
no others. The functions of instances have stacks of their own, so what becomes of the signals there
is decided by the run. As long as no clause of a `for` executes a `return`, stacks only wane: a call
takes a signal off its stack whenever its body has left one there, also where older signals were
pending all the time. A `for` that goes on after a `return` in a clause can leave a second signal on
the stack of a function, and it stays there when the session recovers.

`waneContract` is what expressions and simple statements keep. A statement may leave one signal on
top, and `Leaves` says so, rule by rule.
-/

namespace BoxScript

/-! ## Stacks that wane -/

/-- The stacks that are there only lose signals, and new functions have none. -/
structure Machine.Wanes (m m' : Machine) : Prop where
  old : ∀ {r : Handle}, r.index < m.heap.returns.size →
    m'.heap.returns.get r <+: m.heap.returns.get r
  new : ∀ {h s r}, (m'.instanceAt h).HasLocals s r → m.heap.returns.size ≤ r.index →
    m'.heap.returns.get r = []

/-- Everything stays in order, with code from the grammar, and stacks wane. -/
def waneContract : Contract where
  lax := True
  inv m := m.Orderly ∧ m.Formed IsExpr IsStatement
  rel m m' := orderContract.rel m m' ∧ m.Wanes m'

namespace Machine.Wanes

variable {m m' : Machine}

/-- If every stack, old or new, is a prefix of what it was, stacks wane. -/
theorem of_get (h : ∀ r, m'.heap.returns.get r <+: m.heap.returns.get r) : m.Wanes m' where
  old _ := h _
  new {_ _ r} _ hr := by
    have hnone : m.heap.returns.get r = [] := Pool.get_of_le hr
    exact List.prefix_nil.1 (hnone ▸ h r)

theorem of_eq (h : m'.heap.returns = m.heap.returns) : m.Wanes m' :=
  of_get fun r => by rw [h]

/-- Waning composes; a function that is new in the middle has signals at neither later point. -/
theorem trans {a b c : Machine} (h : a.Wanes b) (hlevels : a.Levels b) (h' : b.Wanes c)
    (hlevels' : b.Levels c) : a.Wanes c where
  old hr := (h'.old (Nat.lt_of_lt_of_le hr hlevels.more)).trans (h.old hr)
  new {k s r} hl hr := by
    obtain ⟨level, hlocals⟩ := hl.localsAt
    rcases Nat.lt_or_ge k.index b.heap.instances.size with hk | hk
    · -- the function was there after the first step, and had no signals then
      have hb := (hlocals.of_bare (hlevels'.old hk)).hasLocals
      rcases Nat.lt_or_ge r.index b.heap.returns.size with hlt | hge
      · exact List.prefix_nil.1 (h.new hb hr ▸ h'.old hlt)
      · exact h'.new hl hge
    · exact h'.new hl (hlevels'.new hk hlocals).2

/-- The way into something and out of it leaves stacks alone. -/
theorem leaving {entered left : Machine} (h : entered.Wanes left)
    (hin : entered.heap.returns = m.heap.returns)
    (hout : ∀ r, m'.heap.returns.get r = left.heap.returns.get r)
    (hlocals : ∀ {k s r}, (m'.instanceAt k).HasLocals s r → (left.instanceAt k).HasLocals s r) :
    m.Wanes m' where
  old {r} hr := by
    rw [hout, ← hin]
    exact h.old (hin ▸ hr)
  new hl hr := by
    rw [hout]
    exact h.new (hlocals hl) (hin ▸ hr)

/-- A script has a copy of the active stack, which belongs to no function. -/
theorem forking {sub : Machine} (hm : m.Orderly) (h : m.forked.Wanes sub)
    (hlevels : m.forked.Levels sub) : m.Wanes sub where
  old {r} hr := by
    have hold := h.old (Nat.lt_of_lt_of_le hr m.size_returns_forked)
    change _ <+: (m.heap.returns.push _).get r at hold
    rwa [Pool.get_push_of_lt hr] at hold
  new {k s r} hl hr := by
    obtain ⟨level, hlocals⟩ := hl.localsAt
    refine h.new hl ?_
    rcases Nat.lt_or_ge k.index m.forked.heap.instances.size with hk | hk
    · exact absurd (hm.inRange (hlocals.of_bare (hlevels.old hk))) (Nat.not_lt.2 hr)
    · exact (hlevels.new hk hlocals).2

end Machine.Wanes

section Steps

variable {m m' : Machine}

theorem wane_order (moves : waneContract.Moves m m') : orderContract.Moves m m' :=
  ⟨⟨moves.inv.1, moves.rel.1⟩, moves.restored⟩

theorem wane_form (moves : waneContract.Moves m m') : grammarContract.Moves m m' :=
  ⟨⟨moves.inv.2, moves.rel.1.2.more⟩, moves.restored⟩

theorem wane_allows (horder : orderContract.Allows m m') (hform : grammarContract.Allows m m')
    (h : m.Wanes m') : waneContract.Allows m m' :=
  ⟨⟨horder.inv, hform.inv⟩, horder.rel, h⟩

/-- The contract is lawful, as its two parts are. -/
theorem wane_lawful : waneContract.Lawful where
  refl hm := ⟨order_frames.refl hm.1, .of_eq rfl⟩
  trans h h' := ⟨order_frames.trans h.1 h'.1, h.2.trans h.1.2 h'.2 h'.1.2⟩

theorem wane_steps : waneContract.Steps IsExpr (Routine.BodyIn IsStatement) where
  toLawful := wane_lawful
  code hm := hm.2.code
  -- order and grammar have their own frames, and nearly all of these leave the stacks as they are
  console hc hm := wane_allows (order_frames.console hc hm.1) (grammar_frames.console hc hm.2)
    (.of_eq rfl)
  assign value v _ moves := wane_allows
    (order_frames.assign value v trivial (wane_order moves))
    (grammar_frames.assign value v trivial (wane_form moves)) (.of_eq rfl)
  declare _ hr hm := wane_allows
    (order_frames.declare trivial (fun n _ => anyNode n) hm.1)
    (grammar_frames.declare trivial hr hm.2) (.of_eq rfl)
  register {m _ whole} _ accepted hd hm := wane_allows
    (order_frames.register trivial accepted (BoxDef.in_any whole) hm.1)
    (grammar_frames.register trivial accepted hd hm.2) (.of_eq rfl)
  extend name _ he hm := wane_allows
    (order_frames.extend name ⟨fun n _ => anyNode n, he.receiver⟩ hm.1)
    (grammar_frames.extend name he hm.2) (.of_eq rfl)
  linkIn h hm := ⟨order_frames.linkIn h hm.1, grammar_frames.linkIn h hm.2⟩
  linkOut h hm moves := wane_allows (order_frames.linkOut h hm.1 (wane_order moves))
    (grammar_frames.linkOut h hm.2 (wane_form moves)) (moves.rel.2.leaving rfl (fun _ => rfl) id)
  linkRefused hm := wane_allows (order_frames.linkRefused hm.1) (grammar_frames.linkRefused hm.2)
    (.of_eq rfl)
  setField h field v hm := wane_allows (order_frames.setField h field v hm.1)
    (grammar_frames.setField h field v hm.2) (.of_eq rfl)
  allocate := by
    intro m m' _ d fields hbefore hknown hd hfields hm
    refine wane_allows (order_frames.allocate hbefore.1 hknown (BoxDef.in_any d) hfields hm.1)
      (grammar_frames.allocate hbefore.2 hknown hd hfields hm.2) (.of_get fun r => ?_)
    obtain ⟨methods, heap, grown, -, hmade⟩ := allocate_cases d fields m'
    rw [hmade]
    exact (grown.returns r).symm ▸ List.prefix_refl _

theorem wane_bindParams (params : List String) (args : List Value) (hm : waneContract.inv m) :
    waneContract.Allows m (m.updateScopes (bindParams m.context.level params args)) :=
  wane_allows (order_frames.bindParams params args hm.1)
    (grammar_frames.bindParams params args hm.2) (.of_eq rfl)

theorem wane_dropSignal (hm : waneContract.inv m) : waneContract.Allows m m.dropSignal := by
  refine wane_allows (order_frames.dropSignal hm.1) (grammar_frames.dropSignal hm.2)
    (.of_get fun r => ?_)
  show (m.heap.returns.modify m.context.returns List.dropLast).get r <+: _
  rcases Pool.get_modify_cases m.heap.returns m.context.returns List.dropLast r with
    ⟨-, -, hget⟩ | hget <;> rw [hget]
  · exact List.dropLast_prefix _

/-- A script has no more signals at its end than at its beginning. -/
theorem length_returns_of_wanes (h : m.forked.Wanes m')
    (hcontext : m'.context = m.forked.context) : m'.returns.length ≤ m.returns.length := by
  have hcopy := h.old (r := m.heap.returns.next) (Nat.lt_of_lt_of_eq (Nat.lt_succ_self _)
    (Pool.size_push _ _).symm)
  change _ <+: (m.heap.returns.push m.returns).get m.heap.returns.next at hcopy
  rw [Pool.get_push_next] at hcopy
  unfold Machine.returns
  rw [hcontext]
  exact hcopy.length_le

theorem wane_nested : waneContract.Nested where
  toLawful := wane_lawful
  scopeIn c hm := ⟨order_frames.scopeIn c hm.1, grammar_frames.scopeIn c hm.2⟩
  scopeOut c hm moves := wane_allows (order_frames.scopeOut c hm.1 (wane_order moves))
    (grammar_frames.scopeOut c hm.2 (wane_form moves)) (moves.rel.2.leaving rfl (fun _ => rfl) id)
  clauseIn hm := ⟨order_frames.clauseIn hm.1, grammar_frames.clauseIn hm.2⟩
  clauseOut hm moves := wane_allows (order_frames.clauseOut hm.1 (wane_order moves))
    (grammar_frames.clauseOut hm.2 (wane_form moves)) (moves.rel.2.leaving rfl (fun _ => rfl) id)
  callIn hm hlt := ⟨order_frames.callIn hm.1 hlt, grammar_frames.callIn hm.2 hlt⟩
  callOut hm hlt moves := wane_allows (order_frames.callOut hm.1 hlt (wane_order moves))
    (grammar_frames.callOut hm.2 hlt (wane_form moves)) (moves.rel.2.leaving rfl (fun _ => rfl) id)
  methodIn hm hfound :=
    ⟨order_frames.methodIn hm.1 hfound, grammar_frames.methodIn hm.2 hfound⟩
  methodOut := by
    intro m m' h signature routine access locals hm hfound moves
    refine wane_allows (order_frames.methodOut hm.1 hfound (wane_order moves))
      (grammar_frames.methodOut hm.2 hfound (wane_form moves))
      (moves.rel.2.leaving rfl (fun _ => rfl) fun {k s r} hl => ?_)
    -- fields and the level of the store are written back, and no function changes its cells
    have hlevel := outline_modify (p := m'.heap.instances) (h := h)
      (fun i => i.outline_setLevel signature locals.level) k
    exact hl.of_outline ((outline_modify (fun i => i.outline_mapFields _) k).trans hlevel).symm
  fork hm := ⟨order_frames.fork hm.1, grammar_frames.fork hm.2⟩
  merge := by
    intro m sub hm moves
    -- the script's stack is no longer than the copy it started with, so nothing is appended
    have hsame := get_merged (length_returns_of_wanes moves.rel.2 moves.restored.context)
    have hwanes := moves.rel.2.forking hm.1 moves.rel.1.2
    exact wane_allows (order_frames.merge hm.1 (wane_order moves))
      (grammar_frames.merge hm.2 (wane_form moves)) (hwanes.leaving rfl hsame id)
  discard := by
    intro m sub chained hchained hm moves
    exact wane_allows (order_frames.discard hchained hm.1 (wane_order moves))
      (grammar_frames.discard hchained hm.2 (wane_form moves))
      ((moves.rel.2.forking hm.1 moves.rel.1.2).leaving rfl (fun _ => rfl) id)

/-- A signal that was just pushed is seen, since the active stack is one of the heap's. -/
theorem pending_signalling_of_orderly (hm : m.Orderly) (v : Value) :
    (m.signalling v).pending = true := by
  unfold Machine.pending
  rw [returns_signalling_of_lt hm.stack]
  cases m.returns <;> rfl

end Steps

/-! ## A signal on top -/

/-- How evaluations from the machine `m` end whose stacks wane. The second one may give up;
otherwise both end alike, and if they end with a value in `S` there may be one signal more. -/
inductive Leaving {α : Type} (S : α → Prop) (m : Machine) : Outcome α → Outcome α → Prop
  | stops {o : Outcome α} {m' : Machine} (moves : waneContract.Moves m m') :
    Leaving S m o ⟨.unfinished, m'⟩
  | ends {result : Result α} {m' : Machine} (moves : waneContract.Moves m m') :
    Leaving S m ⟨result, m'⟩ ⟨result, m'⟩
  | signals {a : α} {m' : Machine} (v : Value) (ha : S a) (moves : waneContract.Moves m m') :
    Leaving S m ⟨.ok a, m'.signalling v⟩ ⟨.ok a, m'.signalling v⟩

theorem Leaving.trans {α : Type} {S : α → Prop} {m m' : Machine}
    (moves : waneContract.Moves m m') {o o' : Outcome α} (h : Leaving S m' o o') :
    Leaving S m o o' := by
  cases h with
  | stops moves' => exact .stops (moves.trans wane_lawful moves')
  | ends moves' => exact .ends (moves.trans wane_lawful moves')
  | signals v ha moves' => exact .signals v ha (moves.trans wane_lawful moves')

/-- From every machine in order both computations end alike, and stacks wane, except that a value in
`S` may come with a signal. -/
def Leaves {α : Type} (S : α → Prop) (x y : Exec α) : Prop :=
  ∀ m, waneContract.inv m → Leaving S m (x m) (y m)

namespace Leaves

variable {α β : Type} {S : α → Prop} {T : β → Prop}

/-- What keeps the contract leaves no signal, which is one way to leave at most one. -/
theorem of_kept {x y : Exec α} (h : waneContract.Kept x y) : Leaves S x y := by
  intro m hm
  obtain ⟨same, moves⟩ := h m hm
  rcases same with ⟨-, ends⟩ | same
  · rcases hy : y m with ⟨_ | _ | _, m'⟩ <;> rw [hy] at ends moves
    · cases ends
    · cases ends
    · exact .stops moves
  · rw [same]
    exact .ends moves

/-- If no value comes with a signal, there is none. -/
theorem kept {x y : Exec α} (h : Leaves S x y) (hnone : ∀ a, ¬S a) : waneContract.Kept x y := by
  intro m hm
  have hm' := h m hm
  generalize x m = o at hm'
  generalize y m = o' at hm'
  cases hm' with
  | stops moves => exact ⟨.inl ⟨trivial, rfl⟩, moves⟩
  | ends moves => exact ⟨.inr rfl, moves⟩
  | signals _ ha _ => exact absurd ha (hnone _)

theorem mono {S' : α → Prop} {x y : Exec α} (h : Leaves S x y) (hS : ∀ a, S a → S' a) :
    Leaves S' x y := by
  intro m hm
  have hm' := h m hm
  generalize x m = o at hm'
  generalize y m = o' at hm'
  cases hm' with
  | stops moves => exact .stops moves
  | ends moves => exact .ends moves
  | signals v ha moves => exact .signals v (hS _ ha) moves

/-- An evaluation without signals comes first. -/
theorem bind {x y : Exec α} {f g : α → Exec β} (h : waneContract.Kept x y)
    (hf : ∀ a, Leaves T (f a) (g a)) : Leaves T (x >>= f) (y >>= g) := by
  intro m hm
  obtain ⟨same, moves⟩ := h m hm
  rw [Exec.bind_apply, Exec.bind_apply]
  rcases hy : y m with ⟨a | e | _, m'⟩ <;> rw [hy] at same moves
  · rw [same.resolve_left nofun]
    exact Leaving.trans moves (hf a m' moves.inv)
  · rw [same.resolve_left nofun]
    exact .ends moves
  · exact .stops moves

/-- The value may be changed afterwards. -/
theorem map {x y : Exec α} (h : Leaves S x y) (f : α → β) (hST : ∀ a, S a → T (f a)) :
    Leaves T (x >>= fun a => Pure.pure (f a)) (y >>= fun a => Pure.pure (f a)) := by
  intro m hm
  have hm' := h m hm
  rw [Exec.bind_apply, Exec.bind_apply]
  generalize x m = o at hm'
  generalize y m = o' at hm'
  cases hm' with
  | stops moves => exact .stops moves
  | @ends result m' moves =>
    rcases result with _ | _ | _ <;> exact .ends moves
  | signals v ha moves => exact .signals v (hST _ ha) moves

/-- A computation on another machine, with a last step that does not look at signals. -/
theorem closing {x y : Exec α} (h : Leaves S x y) {leave : Machine → Machine}
    {m entered : Machine} (henter : waneContract.inv entered)
    (hsignal : ∀ m' v, leave (m'.signalling v) = (leave m').signalling v)
    (hleave : ∀ m', waneContract.Moves entered m' → waneContract.Moves m (leave m')) :
    Leaving S m (Exec.closing x leave entered) (Exec.closing y leave entered) := by
  have hm := h entered henter
  unfold Exec.closing
  generalize x entered = o at hm
  generalize y entered = o' at hm
  cases hm with
  | stops moves => exact .stops (hleave _ moves)
  | ends moves => exact .ends (hleave _ moves)
  | signals v ha moves =>
    dsimp only
    rw [hsignal]
    exact .signals v ha (hleave _ moves)

theorem inBlock {x y : Exec α} (h : Leaves S x y) :
    Leaves S (Exec.inBlock x) (Exec.inBlock y) :=
  fun _ hm => h.closing (wane_nested.enterBlock hm) (fun _ _ => rfl)
    fun _ moves => wane_nested.leaveBlock hm moves

/-- A block stops at the first statement that leaves a signal. -/
theorem block {x y : Evaluator} {R : Node → Prop} {nodes : List Node}
    (h : ∀ n ∈ nodes, Leaves (fun _ => R n) (x n) (y n)) :
    Leaves (fun stops => stops = true ∧ ∃ n ∈ nodes, R n) (runBlock x nodes)
      (runBlock y nodes) := by
  -- induction on the statements, from every machine; a signal of the first one ends the block, and
  -- the block reports it
  induction nodes with
  | nil => exact of_kept (Contract.kept_pure wane_lawful false)
  | cons node nodes ih =>
    obtain ⟨hfirst, hrest⟩ := List.forall_mem_cons.1 h
    intro m hm
    have hm' := hfirst m hm
    rw [runBlock, runBlock]
    generalize x node m = o at hm'
    generalize y node m = o' at hm'
    cases hm' with
    | stops moves => exact .stops moves
    | @ends result m' moves =>
      rcases result with _ | _ | _
      · dsimp only
        cases m'.pending with
        | true => exact .ends moves
        | false =>
          have hlater : (∃ n ∈ nodes, R n) → ∃ n ∈ node :: nodes, R n := by
            rintro ⟨n, hn, hr⟩
            exact ⟨n, List.mem_cons_of_mem node hn, hr⟩
          have hleaves : Leaves (fun stops => stops = true ∧ ∃ n ∈ node :: nodes, R n)
              (runBlock x nodes) (runBlock y nodes) :=
            (ih hrest).mono fun _ hstops => ⟨hstops.1, hlater hstops.2⟩
          exact Leaving.trans moves (hleaves m' moves.inv)
      · exact .ends moves
      · exact .ends moves
    | signals v hr moves =>
      dsimp only
      rw [pending_signalling_of_orderly moves.inv.1]
      exact .signals v ⟨rfl, node, List.mem_cons_self, hr⟩ moves

/-- A loop whose body may leave a signal, but whose step may not. -/
theorem loop {test test' body body' : Exec Bool} {step step' : Exec Unit} {R : Prop}
    (htest : waneContract.Kept test test')
    (hbody : Leaves (fun stops => stops = true ∧ R) body body')
    (hstep : waneContract.Kept step step') (fuel : Nat) :
    Leaves (fun _ => R) (repeatWhile test body step fuel)
      (repeatWhile test' body' step' fuel) := by
  -- induction on the rounds; the step is left out after a body that stops
  induction fuel with
  | zero => exact of_kept (Contract.kept_of_unchanged wane_lawful fun _ => rfl)
  | succ fuel ih =>
    rw [Contract.repeatWhile_succ, Contract.repeatWhile_succ]
    refine bind htest fun goesOn => ?_
    cases goesOn with
    | false => exact of_kept (Contract.kept_pure wane_lawful ())
    | true =>
      have hnext := bind hstep fun _ => ih
      intro m hm
      have hm' := hbody m hm
      rw [if_pos rfl, if_pos rfl, Exec.bind_apply, Exec.bind_apply]
      generalize body m = o at hm'
      generalize body' m = o' at hm'
      cases hm' with
      | stops moves => exact .stops moves
      | @ends result m' moves =>
        rcases result with stops | _ | _
        · cases stops with
          | true => exact .ends moves
          | false => exact Leaving.trans moves (hnext m' moves.inv)
        · exact .ends moves
        · exact .ends moves
      | signals v ha moves =>
        obtain ⟨rfl, hr⟩ := ha
        exact .signals v hr moves

/-- The end of a call takes a signal off its stack: the one that its body has left, or an older
one. -/
theorem taken {x y : Exec Bool} {R : Prop} (h : Leaves (fun stops => stops = true ∧ R) x y)
    (routine : Routine) :
    waneContract.Kept (x >>= takeSignal routine) (y >>= takeSignal routine) := by
  intro m hm
  have hm' := h m hm
  rw [Exec.bind_apply, Exec.bind_apply]
  generalize x m = o at hm'
  generalize y m = o' at hm'
  cases hm' with
  | stops moves => exact ⟨.inl ⟨trivial, rfl⟩, moves⟩
  | @ends result m' moves =>
    rcases result with stops | _ | _
    · cases stops with
      | true =>
        -- the body stopped at an older signal, and the call takes that one off
        have hdropped : waneContract.Moves m' m'.dropSignal :=
          ⟨wane_dropSignal moves.inv, ⟨rfl, rfl⟩⟩
        exact ⟨.inr rfl, moves.trans wane_lawful hdropped⟩
      | false => exact ⟨.inr rfl, moves⟩
    · exact ⟨.inr rfl, moves⟩
    · exact ⟨.inr rfl, moves⟩
  | @signals _ m' v ha moves =>
    obtain ⟨rfl, -⟩ := ha
    refine ⟨.inr rfl, ?_⟩
    show waneContract.Moves m (m'.signalling v).dropSignal
    rwa [dropSignal_signalling]

/-- A function leaves no signal on the stack of its body. -/
theorem body {x y : Evaluator} {routine : Routine} {R : Node → Prop}
    (h : ∀ n ∈ routine.body, Leaves (fun _ => R n) (x n) (y n)) (args : List Value) :
    waneContract.Kept (runBody x routine args) (runBody y routine args) := by
  have hbound : waneContract.Kept
      (Exec.update fun m => m.updateScopes (bindParams m.context.level routine.params args))
      (Exec.update fun m => m.updateScopes (bindParams m.context.level routine.params args)) :=
    Contract.kept_update fun m hm => ⟨wane_bindParams _ _ hm, ⟨rfl, rfl⟩⟩
  unfold runBody
  by_cases hcount : args.length ≠ routine.params.length
  · simp only [if_pos hcount]
    exact Contract.kept_fail wane_lawful _
  · simp only [if_neg hcount]
    exact hbound.bind wane_lawful fun _ => (block h).taken routine

/-- The end of a program drops the signal of a `return` outside functions. -/
theorem program {x y : Evaluator} {program : Program} {R : Node → Prop}
    (h : ∀ n ∈ program, Leaves (fun _ => R n) (x n) (y n)) :
    waneContract.Kept (α := Unit) (runProgram x program) (runProgram y program) := by
  -- at the end the text of the signal is noted on the console and the signal is dropped
  have hend : ∀ {m}, waneContract.inv m → waneContract.Moves m m.noteSignal.dropSignal := by
    intro m hm
    obtain ⟨c, hc, hnoted⟩ := Follows.noteSignal_eq m
    have hconsole : waneContract.Moves m m.noteSignal := by
      rw [hnoted]
      exact ⟨wane_steps.console hc hm, ⟨rfl, rfl⟩⟩
    exact hconsole.trans wane_lawful ⟨wane_dropSignal hconsole.inv, ⟨rfl, rfl⟩⟩
  induction program with
  | nil => exact Contract.kept_pure wane_lawful ()
  | cons node nodes ih =>
    obtain ⟨hfirst, hrest⟩ := List.forall_mem_cons.1 h
    intro m hm
    have hm' := hfirst m hm
    rw [runProgram, runProgram]
    generalize x node m = o at hm'
    generalize y node m = o' at hm'
    cases hm' with
    | stops moves => exact ⟨.inl ⟨trivial, rfl⟩, moves⟩
    | @ends result m' moves =>
      rcases result with _ | _ | _
      · dsimp only
        cases m'.pending with
        | true => exact ⟨.inr rfl, moves.trans wane_lawful (hend moves.inv)⟩
        | false =>
          obtain ⟨same, moves'⟩ := ih hrest m' moves.inv
          exact ⟨same, moves.trans wane_lawful moves'⟩
      · exact ⟨.inr rfl, moves⟩
      · exact ⟨.inr rfl, moves⟩
    | @signals _ m' v _ moves =>
      dsimp only
      rw [pending_signalling_of_orderly moves.inv.1]
      refine ⟨.inr rfl, moves.trans wane_lawful ?_⟩
      obtain ⟨c, hc, hnoted⟩ := Follows.noteSignal_eq (m'.signalling v)
      have hdropped : (m'.signalling v).noteSignal.dropSignal = { m' with console := c } := by
        rw [hnoted]
        show ({ (m'.signalling v).dropSignal with console := c } : Machine) = _
        rw [dropSignal_signalling]
      show waneContract.Moves m' (m'.signalling v).noteSignal.dropSignal
      rw [hdropped]
      exact ⟨wane_steps.console hc moves.inv, ⟨rfl, rfl⟩⟩

section Rules

variable {ev ev' : Evaluator}

/-- Expressions leave no signal, and calls take off those of their bodies. -/
theorem given (h : ∀ {n}, IsStatement n → Leaves (fun _ => HoldsReturn n) (ev n) (ev' n)) :
    waneContract.Given IsExpr (Routine.BodyIn IsStatement) ev ev' where
  toCallable := Contract.callable_of_all fun _ _ => trivial
  ask hn := (h (grammar_language.expression hn)).kept fun _ =>
    not_holdsReturn_of_simple hn.isSimple
  invoke args hr :=
    Contract.kept_asFunction wane_nested (body (fun n hn => h (hr n hn)) args)
  method o _ args _ hr :=
    Contract.kept_asMethod wane_nested o _ (body (fun n hn => h (hr n hn)) args)
  importing _ _ :=
    Contract.kept_importSource wane_nested.toForks _ fun _ hparse =>
      program fun n hn => h (isStatement_of_ofSource hparse n hn)

/-- **The rule for every statement leaves one signal at most**, and that only if a `return` stands
in it, as long as its clauses are silent. -/
theorem rule (h : ∀ {n}, IsStatement n → Leaves (fun _ => HoldsReturn n) (ev n) (ev' n))
    {node : Node} (hnode : IsStatement node) (hsilent : SilentClauses node) (fuel : Nat) :
    Leaves (fun _ => HoldsReturn node) (evalNode ev fuel node) (evalNode ev' fuel node) := by
  have hparts := grammar_language.parts hnode
  have hbelow := grammar_language.below hnode
  have hask : ∀ {n}, IsExpr n → waneContract.Kept (ev n) (ev' n) := fun hn => (given h).ask hn
  -- a signal in a block below is one of the statement
  have hblock : ∀ nodes, (∀ n ∈ nodes, n ∈ node.statements) →
      Leaves (fun stops => stops = true ∧ HoldsReturn node) (runBlock ev nodes)
        (runBlock ev' nodes) :=
    fun nodes hnodes => (block fun n hn => h (hbelow n (hnodes n hn))).mono
      fun _ hstops => ⟨hstops.1, by
        obtain ⟨n, hn, hreturn⟩ := hstops.2
        exact .inside (hnodes n hn) hreturn⟩
  -- a clause without a return is kept, so that it cannot leave a signal on the way out
  have hclause : ∀ {n}, n ∈ node.statements → ¬HoldsReturn n → waneContract.Kept
      (Exec.asClause (ev n >>= fun _ => Pure.pure ()))
      (Exec.asClause (ev' n >>= fun _ => Pure.pure ())) :=
    fun hn hnot => Contract.kept_asClause wane_nested.toScoped
      (((h (hbelow _ hn)).kept fun _ => hnot).bind wane_lawful fun _ =>
        Contract.kept_pure wane_lawful ())
  have hdone : ∀ {x y : Exec Unit}, Leaves (fun _ => HoldsReturn node) x y →
      Leaves (fun _ => HoldsReturn node) (x >>= fun _ => Pure.pure Value.void)
        (y >>= fun _ => Pure.pure Value.void) :=
    fun h => h.map (fun _ => Value.void) fun _ => id
  -- the return statement is the one place where a signal is pushed
  have hpush : ∀ v : Value, HoldsReturn node → Leaves (fun _ => HoldsReturn node)
      ((Exec.update (·.updateReturns (· ++ [v])) >>= fun _ => Pure.pure .void) : Exec Value)
      (Exec.update (·.updateReturns (· ++ [v])) >>= fun _ => Pure.pure .void) :=
    fun v hreturn m hm => .signals v hreturn (Contract.Moves.refl wane_lawful hm)
  cases hcontrol : node.isControl with
  | false =>
    exact of_kept fun _ hm => Contract.meets_evalNode wane_steps (given h) hparts hcontrol fuel hm
      trivial
  | true =>
    cases node with
    | ifElse condition yes no =>
      have hbranch : ∀ {nodes}, (∀ n ∈ nodes, n ∈ (Node.ifElse condition yes no).statements) →
          Leaves (fun _ => HoldsReturn (.ifElse condition yes no))
            ((runBlock ev nodes : Exec Bool) >>= fun _ => Pure.pure ())
            ((runBlock ev' nodes : Exec Bool) >>= fun _ => Pure.pure ()) :=
        fun hnodes => (hblock _ hnodes).map (fun _ => ()) fun _ => And.right
      refine hdone (x := runIf ev condition yes no) (y := runIf ev' condition yes no) ?_
      unfold runIf
      refine inBlock (bind (Contract.kept_holds wane_lawful (hask hparts)) fun holds => ?_)
      cases holds with
      | true => exact hbranch fun n hn => List.mem_append_left _ hn
      | false =>
        cases no with
        | none => exact of_kept (Contract.kept_pure wane_lawful ())
        | some no => exact hbranch fun n hn => List.mem_append_right _ hn
    | whileDo condition nodes =>
      refine hdone (inBlock ?_)
      exact loop (Contract.kept_holds wane_lawful (hask hparts)) (hblock nodes fun _ => id)
        (Contract.kept_pure wane_lawful ()) fuel
    | forDo init condition increment nodes =>
      have hfirst := hclause (n := init) (by simp [Node.statements]) hsilent.1
      have hstep := hclause (n := increment) (by simp [Node.statements]) hsilent.2
      have hbody := hblock nodes fun n hn => by simp [Node.statements, hn]
      refine hdone (x := runFor ev fuel init condition increment nodes)
        (y := runFor ev' fuel init condition increment nodes) ?_
      unfold runFor
      refine inBlock (bind hfirst fun _ => ?_)
      exact loop (Contract.kept_holds wane_lawful (hask hparts)) hbody hstep fuel
    | giveBack value =>
      cases value with
      | none => exact hpush .void (.giveBack none)
      | some value => exact bind (hask hparts) fun v => hpush v (.giveBack _)
    | _ => cases hcontrol

end Rules
end Leaves

/-- **Evaluations let stacks wane but for one signal**, with any amount of fuel, as long as they do
not give up at a `for` with a `return` in a clause. -/
theorem leaves_evalSilent (fuel : Nat) {node : Node} (hnode : IsStatement node) :
    Leaves (fun _ => HoldsReturn node) (eval fuel node) (evalSilent fuel node) := by
  induction fuel generalizing node with
  | zero => exact .of_kept (Contract.kept_of_unchanged wane_lawful fun _ => rfl)
  | succ fuel ih =>
    intro m hm
    by_cases hsilent : SilentClauses node
    · rw [evalSilent_of_silent hsilent]
      exact Leaves.rule ih hnode hsilent fuel m hm
    · rw [evalSilent_of_not hsilent]
      exact .stops (Contract.Moves.refl wane_lawful hm)

/-! ## Runs and recoveries -/

/-- The run of a source text gets to no `for` with a `return` in a clause. -/
def Machine.RunsSilently (m : Machine) (fuel : Nat) (source : String) : Prop :=
  ∀ program, Program.ofSource source = .ok program → SilentRun fuel (runProgram · program) m

section Runs

variable {m m' : Machine} {fuel : Nat} {source : String} {ending : Ending}

/-- Stacks wane in a silent run, however it ends. -/
theorem Reachable.wane (h : Reachable m) (hrun : m.runWith fuel source = (ending, m'))
    (hsilent : m.RunsSilently fuel source) : waneContract.Moves m m' := by
  have hm : waneContract.inv m := ⟨h.orderly, h.formed⟩
  rcases Machine.runWith_cases hrun with ⟨-, rfl⟩ | ⟨program, hparse, rfl⟩
  · exact Contract.Moves.refl wane_lawful hm
  · have hkept := Leaves.program fun n hn =>
      leaves_evalSilent fuel (isStatement_of_ofSource hparse n hn)
    have moves := (hkept m hm).moves
    have same : runProgram (evalSilent fuel) program m = runProgram (eval fuel) program m :=
      hsilent program hparse _
    rwa [same] at moves

/-- What is read where there was no stack wanes too. -/
theorem Machine.Wanes.shrinks (h : m.Wanes m') {o s r : Handle}
    (hl : (m'.instanceAt o).HasLocals s r) : m'.heap.returns.get r <+: m.heap.returns.get r := by
  rcases Nat.lt_or_ge r.index m.heap.returns.size with hr | hr
  · exact h.old hr
  · rw [h.new hl hr]
    exact List.nil_prefix

/-- Where no signals are, stacks cannot wane. -/
theorem Machine.Quiet.of_wane (hq : m.Quiet) (hm : m.Orderly) (moves : waneContract.Moves m m') :
    m'.Quiet where
  active := by
    have hactive := moves.rel.2.old hm.stack
    rw [show m.heap.returns.get m.context.returns = [] from hq.active] at hactive
    unfold Machine.returns
    rw [moves.restored.context]
    exact List.prefix_nil.1 hactive
  slots {o s r} hl := by
    obtain ⟨level, hlocals⟩ := hl.localsAt
    rcases Nat.lt_or_ge o.index m.heap.instances.size with ho | ho
    · have hprefix := moves.rel.2.shrinks hl
      rw [hq.slots (hlocals.of_bare (moves.rel.1.2.old ho)).hasLocals] at hprefix
      exact List.prefix_nil.1 hprefix
    · exact moves.rel.2.new hl (moves.rel.1.2.new ho hlocals).2

/-- A recovery drops the signals on the session's own stack. -/
theorem returns_recover (hstack : m.context.returns.index < m.heap.returns.size) :
    m.recover.returns = [] := Pool.get_modify_self hstack _

/-- A recovery leaves the stacks of functions alone. -/
theorem Idle.get_recover (h : Idle m) {o s r : Handle} (hl : (m.instanceAt o).HasLocals s r) :
    m.recover.heap.returns.get r = m.heap.returns.get r := by
  have hm := Reachable.orderly (.idle h)
  obtain ⟨level, hlocals⟩ := hl.localsAt
  have hscopes : m.context.scopes = ⟨0⟩ := by
    rw [h.context_eq]
    rfl
  refine Pool.get_modify_of_ne (fun heq => ?_) _
  -- a function on the session's own stack would have the session's own store
  have hstore := (hm.paired hlocals).2 heq.symm
  exact hm.outer hscopes o (hstore ▸ hlocals.owns)

theorem Machine.Quiet.recover (hq : m.Quiet) (h : Idle m) : m.recover.Quiet where
  active := returns_recover (Reachable.orderly (.idle h)).stack
  slots hl := (h.get_recover hl).trans (hq.slots hl)

/-- What becomes of return signals when a run from the machine `m` ends on the machine `left` and
the session recovers. -/
structure SignalsRecovered (fuel : Nat) (source : String) (m left : Machine) : Prop where
  /-- No signal is on the session's own stack, which plain calls and extensions use. -/
  active : left.recover.returns = []
  /-- The functions of instances have the signals that the run has left them. -/
  kept : ∀ {o s r}, (left.recover.instanceAt o).HasLocals s r →
    left.recover.heap.returns.get r = left.heap.returns.get r
  /-- If the run got to no `for` with a `return` in a clause, all their signals are older ones, in
  the place that they had before the run; so those of new instances have none. -/
  older : m.RunsSilently fuel source → ∀ {o s r}, (left.recover.instanceAt o).HasLocals s r →
    left.recover.heap.returns.get r <+: m.heap.returns.get r
  /-- If there were none before, there are none now. -/
  quiet : m.RunsSilently fuel source → m.Quiet → left.recover.Quiet

/-- **A recovery drops the signals of the session, and no others.** Take any run of a session that
fails, be it at once or inside of calls, and let the session recover. No signal is on its own stack
then, but those on the stacks of functions of instances stay. None of these was pushed during the
run, if it got to no `for` with a `return` in a clause. -/
theorem signals_recovered (h : Idle m) {e : ScriptError}
    (hrun : m.runWith fuel source = (.failed e, m')) : SignalsRecovered fuel source m m' := by
  have hm := Reachable.orderly (.idle h)
  have hidle : Idle m' := .run h hrun nofun
  constructor
  case active => exact returns_recover (Reachable.orderly (.idle hidle)).stack
  case kept => exact hidle.get_recover
  case older =>
    intro hsilent o s r hl
    have hwanes := (Reachable.wane (.idle h) hrun hsilent).rel.2
    rw [hidle.get_recover hl]
    exact hwanes.shrinks hl
  case quiet =>
    intro hsilent hq
    exact (hq.of_wane hm (Reachable.wane (.idle h) hrun hsilent)).recover hidle

end Runs

namespace OneCell

/-- The machine of the examples is quiet: it has two stacks, and both are empty. -/
theorem quiet : machine.Quiet := by
  have hreturns : machine.heap.returns = ⟨#[[], []]⟩ := rfl
  have hempty : ∀ r, machine.heap.returns.get r = [] := by
    rw [hreturns]
    rintro ⟨_ | _ | n⟩
    · rfl
    · rfl
    · exact Pool.get_of_le (by simp [Pool.size])
  exact ⟨hempty _, fun _ => hempty _⟩

/-- A call of the method with an integer. -/
theorem parsed_failing :
    Program.ofSource "b.f(1)" = .ok [.method (.named "b") ⟨"f", [.int 1]⟩ []] := by
  have hscan : Token.scan "b.f(1)" = .ok [(.ident "b", ⟨0, 1⟩), (.sign .dot, ⟨1, 2⟩),
      (.ident "f", ⟨2, 3⟩), (.sign .lParen, ⟨3, 4⟩), (.int 1, ⟨4, 5⟩),
      (.sign .rParen, ⟨5, 6⟩)] := by
    decide +kernel
  rw [ofSource_of_scan hscan]
  cbv

/-- The call fails inside of the method, and gets to no `for`. -/
theorem runsSilently_put : machine.RunsSilently 5 "b.f(1)" := by
  rintro program hprogram other
  cases parsed_failing.symm.trans hprogram
  set ev := evalOr (fun node _ => SilentClauses node) other with hev
  have harg : ev 4 (.int 1) machine = ⟨.ok (.int 1), machine⟩ := evalOr_of_holds trivial
  have hargs : evalArgs (ev 4) [.int 1] machine = ⟨.ok [.int 1], machine⟩ := by
    simp only [evalArgs, evalArgsFrom, harg, List.reverse_cons, List.reverse_nil, List.nil_append]
  have hput : runMethod (ev 4) ⟨0⟩ put [.int 1] machine
      = runMethod (eval 4) ⟨0⟩ put [.int 1] machine :=
    throughout_put (fun _ => trivial) (fun _ => trivial) (fun _ => trivial) 2 _ _ _ other
  have hcall : callMethod (ev 4) ⟨0⟩ ⟨"f", [.int 1]⟩ machine
      = callMethod (eval 4) ⟨0⟩ ⟨"f", [.int 1]⟩ machine := by
    refine (Exec.bind_apply (evalArgs (ev 4) [.int 1]) (runMethod (ev 4) ⟨0⟩ put) machine).trans ?_
    rw [hargs]
    exact hput
  have hnode : ev 5 (.method (.named "b") ⟨"f", [.int 1]⟩ []) machine
      = eval 5 (.method (.named "b") ⟨"f", [.int 1]⟩ []) machine :=
    (evalOr_of_holds trivial).trans (Exec.bind_congr hcall)
  show runProgram (ev 5) [_] machine = runProgram (eval 5) [_] machine
  simp only [runProgram, hnode]

end OneCell

/-- A call of the method of the cell that fails in the method. -/
theorem signals_recovered_cell :
    Idle OneCell.machine ∧
      ∃ e left, OneCell.machine.runWith 5 "b.f(1)" = (.failed e, left) ∧
        OneCell.machine.RunsSilently 5 "b.f(1)" ∧ OneCell.machine.Quiet ∧
          left.recover.returns = [] ∧ left.recover.Quiet := by
  obtain ⟨e, left, hrun⟩ : ∃ e left, OneCell.machine.runWith 5 "b.f(1)" = (.failed e, left) := by
    unfold Machine.runWith
    rw [OneCell.parsed_failing]
    exact ⟨_, _, rfl⟩
  have hrecovered := signals_recovered OneCell.idle hrun
  exact ⟨OneCell.idle, e, left, hrun, OneCell.runsSilently_put, OneCell.quiet, hrecovered.active,
    hrecovered.quiet OneCell.runsSilently_put OneCell.quiet⟩

/-- A box whose method returns in the first clause of a `for` and then throws in its body, and a
call of that method. -/
def lateThrow : Program :=
  [.box ⟨"A", none, false, false, [], [⟨⟨"g", [], [.forDo (.giveBack (some (.int 7))) (.int 1)
      (.giveBack (some (.int 8))) [.raise (.str "")]]⟩, .exposed, false⟩]⟩,
    .assign "a" (.create "A"), .method (.named "a") ⟨"g", []⟩ []]

/-- The tokens of its text. -/
def lateThrowTokens : Tokens :=
  [(.keyword .refbox, ⟨0, 6⟩), (.ident "A", ⟨7, 8⟩), (.keyword .function, ⟨9, 17⟩),
    (.ident "g", ⟨18, 19⟩), (.sign .lParen, ⟨19, 20⟩), (.sign .rParen, ⟨20, 21⟩),
    (.keyword .forDo, ⟨22, 25⟩), (.keyword .giveBack, ⟨26, 32⟩), (.int 7, ⟨33, 34⟩),
    (.sign .semi, ⟨34, 35⟩), (.int 1, ⟨36, 37⟩), (.sign .semi, ⟨37, 38⟩),
    (.keyword .giveBack, ⟨39, 45⟩), (.int 8, ⟨46, 47⟩), (.keyword .raise, ⟨48, 53⟩),
    (.str "", ⟨54, 56⟩), (.keyword .endBlock, ⟨57, 60⟩), (.keyword .endBlock, ⟨61, 64⟩),
    (.keyword .endBlock, ⟨65, 68⟩), (.ident "a", ⟨69, 70⟩), (.sign .eq, ⟨71, 72⟩),
    (.keyword .create, ⟨73, 79⟩), (.ident "A", ⟨80, 81⟩), (.ident "a", ⟨82, 83⟩),
    (.sign .dot, ⟨83, 84⟩), (.ident "g", ⟨84, 85⟩), (.sign .lParen, ⟨85, 86⟩),
    (.sign .rParen, ⟨86, 87⟩)]

/-- The condition on clauses is needed: the signal of that `return` is still on the stack of the
method when the session has recovered. -/
theorem signal_outlives_recovery :
    ∃ left, (Machine.new .empty (.ofBytes [])).runWith 9
        "refbox A function g() for return 7; 1; return 8 throw \"\" end end end a = create A a.g()"
          = (.failed (.runtime (.thrown "")), left) ∧
      (left.recover.instanceAt ⟨0⟩).HasLocals ⟨1⟩ ⟨1⟩ ∧
      left.recover.heap.returns.get ⟨1⟩ = [.int 7] := by
  have hscan : Token.scan
      "refbox A function g() for return 7; 1; return 8 throw \"\" end end end a = create A a.g()"
        = .ok lateThrowTokens := by
    decide +kernel
  have hparse : Program.ofSource
      "refbox A function g() for return 7; 1; return 8 throw \"\" end end end a = create A a.g()"
        = .ok lateThrow := by
    rw [ofSource_of_scan hscan]
    cbv
  refine ⟨(runProgram (eval 9) lateThrow (.new .empty (.ofBytes []))).machine, ?_,
    ⟨_, _, _, List.mem_cons_self⟩, rfl⟩
  unfold Machine.runWith
  rw [hparse]
  rfl

end BoxScript
