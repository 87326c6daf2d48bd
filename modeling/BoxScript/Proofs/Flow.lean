import BoxScript.Proofs.Code
import BoxScript.Proofs.Contract

/-!
# Direct control flow

The machine runs a `return` by a signal that blocks and loops look for after their statements. What
that is meant to do is said here without signals: the flow of a statement is the value of the first
`return` that it executes, if it executes one, and nothing of a block or a loop runs after that. The
expressions in it are evaluated by some evaluator, which is passed in for each amount of fuel.

A statement that holds no `return` outside the functions that it declares has none to execute.
-/

namespace BoxScript

/-- A computation that may end in a `return`, with the value that is returned. -/
abbrev Flow := Exec (Option Value)

/-- Go on after a statement unless it has returned. -/
def Flow.andThen (first next : Flow) : Flow := do
  match ← first with
  | some v => return some v
  | none => next

/-- Statements in order, up to the first `return`. -/
def flowBlock (fl : Node → Flow) : List Node → Flow
  | [] => pure none
  | node :: nodes => (fl node).andThen (flowBlock fl nodes)

/-- Rounds of a loop, up to the first `return`. -/
def flowWhile (test : Exec Bool) (body step : Flow) : Nat → Flow
  | 0 => Exec.unfinished
  | fuel + 1 => do
    if ← test then body.andThen (step.andThen (flowWhile test body step fuel)) else return none

/-- The flow of each kind of node. -/
def flowNode (ev : Evaluator) (fl : Node → Flow) (fuel : Nat) : Node → Flow
  | .giveBack none => pure (some .void)
  | .giveBack (some value) => do return some (← ev value)
  | .ifElse condition yes no => Exec.inBlock do
    if ← holds ev condition then flowBlock fl yes else flowBlock fl (no.getD [])
  | .whileDo condition body =>
    Exec.inBlock (flowWhile (holds ev condition) (flowBlock fl body) (pure none) fuel)
  | .forDo init condition increment body =>
    Exec.inBlock (Flow.andThen (Exec.asClause (fl init))
      (flowWhile (holds ev condition) (flowBlock fl body) (Exec.asClause (fl increment)) fuel))
  | node => do
    let _ ← evalNode ev fuel node
    return none

/-- The flow of a statement, with so much fuel. -/
def flow (evs : Nat → Evaluator) : Nat → Node → Flow
  | 0 => fun _ => Exec.unfinished
  | fuel + 1 => flowNode (evs fuel) (flow evs fuel) fuel

/-- The value that is returned, or an error if none is. -/
def Flow.value (f : Flow) (e : RuntimeError) : Exec Value := do
  match ← f with
  | some v => return v
  | none => Exec.fail e

/-- What a function with these statements returns. -/
def flowBody (body : Flow) (routine : Routine) (args : List Value) : Exec Value := do
  if args.length ≠ routine.params.length then
    Exec.fail (.argumentCount routine.name routine.params.length args.length)
  Exec.update fun m => m.updateScopes (bindParams m.context.level routine.params args)
  body.value (.missingReturn routine.name)

theorem flowNode_of_simple (ev : Evaluator) (fl : Node → Flow) (fuel : Nat) {node : Node}
    (h : node.isControl = false) :
    flowNode ev fl fuel node = evalNode ev fuel node >>= fun _ => pure none := by
  cases node with
  | ifElse | whileDo | forDo | giveBack => cases h
  | _ => rfl

/-- A second statement runs if the first one gives nothing back. -/
theorem Flow.andThen_apply (first next : Flow) (m : Machine) :
    first.andThen next m = match first m with
      | ⟨.ok (some v), m⟩ => ⟨.ok (some v), m⟩
      | ⟨.ok none, m⟩ => next m
      | ⟨.error e, m⟩ => ⟨.error e, m⟩
      | ⟨.unfinished, m⟩ => ⟨.unfinished, m⟩ := by
  unfold Flow.andThen
  rw [Exec.bind_apply]
  rcases first m with ⟨(_ | v) | e | _, m'⟩ <;> rfl

/-! ## Statements without `return` -/

/-- A `return` stands in a statement, outside the functions that it declares. -/
inductive HoldsReturn : Node → Prop
  | giveBack (value : Option Node) : HoldsReturn (.giveBack value)
  | inside {node n : Node} (hn : n ∈ node.statements) (h : HoldsReturn n) : HoldsReturn node

/-- The clauses of a node, if it is a `for`, hold no `return`. -/
def SilentClauses : Node → Prop
  | .forDo init _ increment _ => ¬HoldsReturn init ∧ ¬HoldsReturn increment
  | _ => True

/-- No `return` stands in a node that directs no run. -/
theorem not_holdsReturn_of_simple {node : Node} (h : node.isControl = false) :
    ¬HoldsReturn node := by
  intro hreturn
  cases hreturn with
  | giveBack => cases h
  | inside hn =>
    cases node with
    | ifElse | whileDo | forDo => cases h
    | _ => cases hn

/-- A flow never ends in a `return`. -/
def Flow.NoReturn (f : Flow) : Prop := ∀ m v, (f m).result ≠ .ok (some v)

namespace Flow.NoReturn

theorem bind {α : Type} {x : Exec α} {f : α → Flow} (h : ∀ a, (f a).NoReturn) :
    Flow.NoReturn (x >>= f) := by
  intro m v
  rw [Exec.bind_apply]
  rcases x m with ⟨a | e | _, m'⟩
  · exact h a m' v
  · exact nofun
  · exact nofun

theorem pure : Flow.NoReturn (Pure.pure none) := by
  intro m v h
  cases h

theorem andThen {f g : Flow} (hf : f.NoReturn) (hg : g.NoReturn) : (f.andThen g).NoReturn := by
  intro m v
  have hnot := hf m
  rw [Flow.andThen_apply]
  rcases hf : f m with ⟨(_ | w) | e | _, m'⟩ <;> rw [hf] at hnot
  · exact hg m' v
  · exact absurd rfl (hnot w)
  · exact nofun
  · exact nofun

/-- What is done on the way out does not give anything back. -/
theorem closing {f : Flow} (h : f.NoReturn) (leave : Machine → Machine) :
    Flow.NoReturn (Exec.closing f leave) := by
  intro m v
  have hnot := h m
  unfold Exec.closing
  rcases hf : f m with ⟨r, m'⟩
  rw [hf] at hnot
  exact hnot v

theorem inBlock {f : Flow} (h : f.NoReturn) : Flow.NoReturn (Exec.inBlock f) :=
  fun m => h.closing (·.closeTo m.context.level) _

theorem asClause {f : Flow} (h : f.NoReturn) : Flow.NoReturn (Exec.asClause f) :=
  fun m => h.closing (·.withClause m.context.inClause) _

theorem block {fl : Node → Flow} {nodes : List Node} (h : ∀ n ∈ nodes, (fl n).NoReturn) :
    (flowBlock fl nodes).NoReturn := by
  induction nodes with
  | nil => exact pure
  | cons node nodes ih =>
    obtain ⟨hfirst, hrest⟩ := List.forall_mem_cons.1 h
    exact hfirst.andThen (ih hrest)

/-- A loop gives nothing back if no round of it does. -/
theorem loop {test : Exec Bool} {body step : Flow} (hbody : body.NoReturn) (hstep : step.NoReturn)
    (fuel : Nat) : (flowWhile test body step fuel).NoReturn := by
  induction fuel with
  | zero =>
    intro m v h
    cases h
  | succ fuel ih =>
    refine bind fun goesOn => ?_
    cases goesOn with
    | true => exact hbody.andThen (hstep.andThen ih)
    | false => exact pure

end Flow.NoReturn

/-- Where no `return` stands, none is executed. -/
theorem noReturn_flow (evs : Nat → Evaluator) (fuel : Nat) {node : Node} (h : ¬HoldsReturn node) :
    (flow evs fuel node).NoReturn := by
  induction fuel generalizing node with
  | zero =>
    intro m v h
    cases h
  | succ fuel ih =>
    have hbelow : ∀ n ∈ node.statements, (flow evs fuel n).NoReturn :=
      fun n hn => ih fun hreturn => h (.inside hn hreturn)
    show Flow.NoReturn (flowNode (evs fuel) (flow evs fuel) fuel node)
    cases node with
    -- a return is the one thing that gives something back, and every other node passes on what is
    -- inside
    | giveBack value => exact absurd (.giveBack value) h
    | ifElse condition yes no =>
      obtain ⟨hyes, hno⟩ := List.forall_mem_append.1 hbelow
      refine Flow.NoReturn.inBlock (Flow.NoReturn.bind fun holds => ?_)
      cases holds with
      | true => exact Flow.NoReturn.block hyes
      | false => exact Flow.NoReturn.block hno
    | whileDo condition body =>
      exact Flow.NoReturn.inBlock ((Flow.NoReturn.block hbelow).loop .pure fuel)
    | forDo init condition increment body =>
      obtain ⟨hinit, hrest⟩ := List.forall_mem_cons.1 hbelow
      obtain ⟨hincrement, hbody⟩ := List.forall_mem_cons.1 hrest
      refine Flow.NoReturn.inBlock (Flow.NoReturn.andThen (.asClause hinit) ?_)
      exact (Flow.NoReturn.block hbody).loop (.asClause hincrement) fuel
    | _ => exact Flow.NoReturn.bind fun _ => .pure

end BoxScript
