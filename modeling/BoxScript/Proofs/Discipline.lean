import BoxScript.Proofs.Signals

/-!
# The discipline of signals

What `BoxScript.Proofs.Signals` shows rule by rule, for whole runs. Whenever code starts on a
machine without signals and no `for` in its course has a `return` in a clause, the signals that it
leaves are those of its flow: none after a failure, after an expression and after a run, and at most
one after a statement; and a call gives the value of the first `return` in its body.
-/

namespace BoxScript

/-! ## Runs -/

/-- Evaluate, but give up at a `for` with a `return` in a clause. -/
noncomputable def evalSilent : Nat → Evaluator := evalWhile fun node _ => SilentClauses node

theorem evalSilent_of_silent {node : Node} (h : SilentClauses node) (fuel : Nat) (m : Machine) :
    evalSilent (fuel + 1) node m = evalNode (evalSilent fuel) fuel node m := evalWhile_of_holds h

theorem evalSilent_of_not {node : Node} (h : ¬SilentClauses node) (fuel : Nat) (m : Machine) :
    evalSilent (fuel + 1) node m = ⟨.unfinished, m⟩ := evalWhile_of_not h

theorem IsExpr.isSimple {node : Node} (h : IsExpr node) : node.isControl = false := by
  cases h <;> rfl

theorem silentClauses_of_simple {node : Node} (h : node.isControl = false) :
    SilentClauses node := by
  cases node with
  | forDo => cases h
  | _ => trivial

/-- **Evaluations follow their flow**, with any amount of fuel, and as long as they do not give up
they only get to machines without signals. -/
theorem below_evalSilent {P : Node → Machine → Prop}
    (hP : ∀ node m, signalContract.inv m → P node m) (other : Nat → Evaluator) (fuel : Nat) :
    Follows.Below (evalOr P other fuel) (evalSilent fuel) (flow (evalOr P other) fuel) := by
  induction fuel with
  | zero =>
    exact
      { ask := fun _ => Contract.kept_of_unchanged signal_lawful fun _ => rfl
        run := fun _ m hm => .stops (Contract.Moves.refl signal_lawful hm)
        silent := noReturn_flow _ 0 }
  | succ fuel ih =>
    refine { ask := ?_, run := ?_, silent := noReturn_flow _ _ }
    · intro node hnode m hm
      have hsimple := hnode.isSimple
      rw [evalOr_of_holds (hP node m hm), evalSilent_of_silent (silentClauses_of_simple hsimple)]
      exact ih.simple (.expr hnode) hsimple fuel m hm
    · intro node hnode m hm
      rw [evalOr_of_holds (hP node m hm)]
      by_cases hsilent : SilentClauses node
      · rw [evalSilent_of_silent hsilent]
        exact Follows.rule ih hnode hsilent fuel m hm
      · rw [evalSilent_of_not hsilent]
        exact .stops (Contract.Moves.refl signal_lawful hm)

/-- In the course of a computation there is no `for` with a `return` in a clause. -/
def SilentRun {α : Type} (fuel : Nat) (x : Evaluator → Exec α) (m : Machine) : Prop :=
  Throughout (fun node _ => SilentClauses node) fuel x m

/-! ## Silent code -/

/-- No `for` has a `return` in a clause, neither in a node nor in the functions that it declares:
the node is in some fragment where none has. -/
def SilentCode (node : Node) : Prop :=
  ∃ S, Fragment S S ∧ (∀ n, S n → SilentClauses n) ∧ S node

theorem SilentCode.clauses {node : Node} (h : SilentCode node) : SilentClauses node := by
  obtain ⟨S, -, hsilent, hnode⟩ := h
  exact hsilent node hnode

theorem silentCode_fragment : Fragment SilentCode SilentCode where
  expression h := h
  parts := by
    rintro node ⟨S, F, hsilent, hnode⟩
    have hin : ∀ n, S n → SilentCode n := fun n hn => ⟨S, F, hsilent, hn⟩
    exact (F.parts hnode).mono hin fun r hr n hn => hin n (hr n hn)
  below := by
    rintro node ⟨S, F, hsilent, hnode⟩ n hn
    exact ⟨S, F, hsilent, F.below hnode n hn⟩

/-- The code on a machine and in its scripts is silent. -/
structure Machine.Silent (m : Machine) : Prop where
  code : m.CodeIn SilentCode (Routine.BodyIn SilentCode)
  scripts : m.ScriptsIn SilentCode

/-- Where there are no files nothing can be read. -/
theorem Files.readText_empty (path text : String) : Files.empty.readText path ≠ .ok text := by
  intro h
  have hbytes : ∃ content, Files.empty.readBytes path = .ok content := by
    cases hb : Files.empty.readBytes path with
    | ok content => exact ⟨content, rfl⟩
    | error e =>
      simp only [readText, hb] at h
      cases h
  obtain ⟨content, hb⟩ := hbytes
  have hnone : ∀ p, Files.empty.file? p = none := fun _ => rfl
  simp only [readBytes, hnone, bind, Except.bind, throw, throwThe, MonadExceptOf.throw] at hb
  -- every way through the checks ends in a fault
  repeat' split at hb
  all_goals cases hb

/-- A machine that has run nothing holds no code at all. -/
theorem silent_new (console : Console) : (Machine.new .empty console).Silent where
  code := codeIn_new _ _
  scripts h _ := absurd h (Files.readText_empty _ _)

/-- Silent code has silent runs from a machine, with so much fuel. -/
structure SilentRuns (fuel : Nat) (m : Machine) : Prop where
  node : ∀ {node}, SilentCode node → SilentRun fuel (· node) m
  block : ∀ {nodes}, (∀ n ∈ nodes, SilentCode n) → SilentRun fuel (runBlock · nodes) m
  call : ∀ {routine} args, routine.BodyIn SilentCode → SilentRun fuel (invoke · routine args) m
  method : ∀ {routine} h args, routine.BodyIn SilentCode →
    SilentRun fuel (runMethod · h routine args) m
  program : ∀ {program}, (∀ n ∈ program, SilentCode n) → SilentRun fuel (runProgram · program) m

/-- Code that is written silent runs silent, for it never meets a clause that is not. -/
theorem silentRuns {m : Machine} (h : Attained m) (hs : m.Silent) (fuel : Nat) :
    SilentRuns fuel m := by
  have F := formContract_frames silentCode_fragment
  -- all code that can be met is silent: that of the node, of the heap and of the scripts
  have hm : m.Formed SilentCode SilentCode :=
    ⟨hs.code, hs.scripts, h.formed.returns, h.formed.slots⟩
  have hnode : ∀ other {n}, SilentCode n → (formContract SilentCode SilentCode).Kept
      (evalOr (fun node _ => SilentClauses node) other fuel n) (eval fuel n) :=
    fun other _ hn => F.kept_eval (fun _ _ hnode _ => hnode.clauses) other fuel hn
  have hbody : ∀ other {routine : Routine} args, routine.BodyIn SilentCode →
      (formContract SilentCode SilentCode).Kept
        (runBody (evalOr (fun node _ => SilentClauses node) other fuel) routine args)
        (runBody (eval fuel) routine args) :=
    fun other _ args hr => Contract.kept_runBody F.toGround (fun n hn => hnode other (hr n hn)) args
  constructor
  case node => exact fun hn other => (hnode other hn).eq id hm
  case block =>
    exact fun hns other =>
      (Contract.kept_runBlock F.toLawful fun n hn => hnode other (hns n hn)).eq id hm
  case call =>
    exact fun args hr other => (Contract.kept_asFunction F.toNested (hbody other args hr)).eq id hm
  case method =>
    exact fun o args hr other =>
      (Contract.kept_asMethod F.toNested o _ (hbody other args hr)).eq id hm
  case program =>
    exact fun hns other =>
      (Contract.kept_runProgram F.toGround fun n hn => hnode other (hns n hn)).eq id hm

/-! ## Pending signals -/

/-- One signal is pending, and none in the locals of functions that do not run on the same stack. -/
structure Machine.OneSignal (m : Machine) : Prop where
  active : ∃ v, m.returns = [v]
  slots : ∀ {h s r}, (m.instanceAt h).HasLocals s r → r ≠ m.context.returns →
    m.heap.returns.get r = []

/-- A signal on a machine without one is the only one. -/
theorem oneSignal_signalling {m : Machine} (hm : signalContract.inv m) (v : Value) :
    (m.signalling v).OneSignal where
  active := ⟨v, returns_signalling hm v⟩
  slots {h s r} hl hr := by
    show (m.heap.returns.modify m.context.returns _).get r = []
    rw [Pool.get_modify_of_ne (show m.context.returns ≠ r from Ne.symm hr)]
    exact hm.2.slots hl

/-! ## Blocks -/

/-- Statements are evaluated one after the other. -/
def Evaluated (ev : Evaluator) : List Node → Machine → Machine → Prop
  | [], m, m' => m' = m
  | node :: nodes, m, m' => ∃ v m₁, ev node m = ⟨.ok v, m₁⟩ ∧ Evaluated ev nodes m₁ m'

/-- Of the statements a beginning is evaluated: up to the first one after which a signal is pending,
or all of them if there is none. -/
def StopsAtSignal (ev : Evaluator) (nodes : List Node) (m m' : Machine) : Prop :=
  ∃ ran left, nodes = ran ++ left ∧ Evaluated ev ran m m' ∧
    (∀ before after, ran = before ++ after → after ≠ [] →
      ∀ m₁, Evaluated ev before m m₁ → m₁.pending = false) ∧
    (m'.pending = false → left = [])

theorem runBlock_stopsAtSignal {ev : Evaluator} {nodes : List Node} {m m' : Machine} {b : Bool}
    (hm : m.pending = false) (h : runBlock ev nodes m = ⟨.ok b, m'⟩) :
    StopsAtSignal ev nodes m m' ∧ b = m'.pending := by
  induction nodes generalizing m with
  | nil =>
    cases h
    refine ⟨⟨[], [], rfl, rfl, fun before after hran hafter => ?_, fun _ => rfl⟩, hm.symm⟩
    exact absurd (List.append_eq_nil_iff.1 hran.symm).2 hafter
  | cons node nodes ih =>
    rw [runBlock] at h
    rcases hfirst : ev node m with ⟨v | e | _, m₁⟩ <;> rw [hfirst] at h
    · dsimp only at h
      -- before the first statement nothing is pending, and after it the rest decides
      have hbegins : ∀ {ran : List Node}, (∀ before after, ran = before ++ after → after ≠ [] →
          ∀ m₂, Evaluated ev before m₁ m₂ → m₂.pending = false) →
          ∀ before after, node :: ran = before ++ after → after ≠ [] →
          ∀ m₂, Evaluated ev before m m₂ → m₂.pending = false := by
        intro ran hran before after heq hafter m₂ hbefore
        cases before with
        | nil =>
          cases hbefore
          exact hm
        | cons n before =>
          obtain ⟨rfl, heq'⟩ := List.cons.inj heq
          obtain ⟨v', m₁', hn, hbefore⟩ := hbefore
          rw [hfirst] at hn
          cases hn
          exact hran before after heq' hafter m₂ hbefore
      cases hpending : m₁.pending with
      | true =>
        rw [hpending, if_pos rfl] at h
        cases h
        refine ⟨⟨[node], nodes, rfl, ⟨v, _, hfirst, rfl⟩, ?_, fun hnot => ?_⟩, hpending.symm⟩
        · refine hbegins fun before after heq hafter => ?_
          exact absurd (List.append_eq_nil_iff.1 heq.symm).2 hafter
        · rw [hpending] at hnot
          cases hnot
      | false =>
        rw [hpending] at h
        obtain ⟨⟨ran, left, hnodes, hran, hbefore, hleft⟩, hb⟩ := ih hpending h
        exact ⟨⟨node :: ran, left, congrArg _ hnodes, ⟨v, m₁, hfirst, hran⟩,
          hbegins hbefore, hleft⟩, hb⟩
    · cases h
    · cases h

/-! ## The discipline -/

theorem below_eval (fuel : Nat) :
    Follows.Below (eval fuel) (evalSilent fuel) (flow (fun k => eval k) fuel) := by
  have h := below_evalSilent (P := fun _ _ => True) (fun _ _ _ => trivial) (fun k => eval k) fuel
  have heval : evalOr (fun _ _ => True) (fun k => eval k) = fun k => eval k :=
    funext (evalOr_eval _)
  generalize evalOr (fun _ _ => True) (fun k => eval k) = evs at h heval
  subst heval
  exact h

section Outcomes

variable {α : Type} {A : Option Value → α → Prop} {m m' : Machine} {o : Outcome α}
  {p : Outcome (Option Value)}

/-- Where nothing gives up, both evaluations are the same. -/
theorem Together.same {o' : Outcome α} (h : Together A m o o' p) (hends : o'.result ≠ .unfinished) :
    o = o' := by
  cases h with
  | stops => exact absurd rfl hends
  | goesOn | returns | fails => rfl

theorem Together.quiet_of_error {e : RuntimeError} (h : Together A m o ⟨.error e, m'⟩ p) :
    m'.Quiet := by
  cases h with
  | fails moves => exact moves.inv.2

/-- Afterwards there is the one signal that the flow says, or none. -/
theorem Together.signals_of_ok {a : α} (h : Together A m o ⟨.ok a, m'⟩ p) :
    (A none a ∧ m'.Quiet) ∨ ∃ v, A (some v) a ∧ m'.OneSignal := by
  cases h with
  | goesOn ha moves => exact .inl ⟨ha, moves.inv.2⟩
  | returns ha moves => exact .inr ⟨_, ha, oneSignal_signalling moves.inv _⟩

end Outcomes

/-- What the signals of runs from a machine do, with so much fuel. -/
structure SignalDiscipline (fuel : Nat) (m : Machine) : Prop where
  /-- Code where no `for` has a `return` in a clause never gets to one that has. -/
  silent : m.Silent → SilentRuns fuel m
  /-- A failure leaves no signal. -/
  failure : ∀ {node e m'}, IsStatement node → SilentRun fuel (· node) m →
    eval fuel node m = ⟨.error e, m'⟩ → m'.Quiet
  /-- An expression leaves no signal. -/
  expression : ∀ {node v m'}, IsExpr node → SilentRun fuel (· node) m →
    eval fuel node m = ⟨.ok v, m'⟩ → m'.Quiet
  /-- A statement leaves no signal or one. -/
  statement : ∀ {node v m'}, IsStatement node → SilentRun fuel (· node) m →
    eval fuel node m = ⟨.ok v, m'⟩ → m'.Quiet ∨ m'.OneSignal
  /-- A block stops at the first statement that leaves a signal, and says whether one did. -/
  block : ∀ {nodes b m'}, (∀ n ∈ nodes, IsStatement n) → SilentRun fuel (runBlock · nodes) m →
    runBlock (eval fuel) nodes m = ⟨.ok b, m'⟩ →
    StopsAtSignal (eval fuel) nodes m m' ∧ (b = true ↔ m'.pending = true) ∧
      (m'.Quiet ∨ m'.OneSignal)
  /-- A call of a function or of an extension gives what its body returns first. -/
  call : ∀ {routine args v m'}, routine.BodyIn IsStatement →
    SilentRun fuel (invoke · routine args) m → invoke (eval fuel) routine args m = ⟨.ok v, m'⟩ →
    m'.Quiet ∧ Exec.asFunction
      (flowBody (flowBlock (flow (fun k => eval k) fuel) routine.body) routine args) m = ⟨.ok v, m'⟩
  /-- So does a call of a method. -/
  method : ∀ {h routine args v m'}, routine.BodyIn IsStatement →
    SilentRun fuel (runMethod · h routine args) m →
    runMethod (eval fuel) h routine args m = ⟨.ok v, m'⟩ →
    m'.Quiet ∧ Exec.asMethod h routine.signature
      (flowBody (flowBlock (flow (fun k => eval k) fuel) routine.body) routine args) m = ⟨.ok v, m'⟩
  /-- A run of a source text leaves no signal, however it ends. -/
  run : ∀ {source program ending m'}, Program.ofSource source = .ok program →
    SilentRun fuel (runProgram · program) m → m.runWith fuel source = (ending, m') →
    ending ≠ .unfinished → m'.Quiet
  /-- Nothing is ever evaluated while a signal is pending, so all of this holds for every
  evaluation and call on the way. -/
  throughout : ∀ {node}, IsStatement node → SilentRun fuel (· node) m →
    (eval fuel node m).result ≠ .unfinished →
    Throughout (fun _ there => there.Quiet) fuel (· node) m

/-- **Signals are as good as direct control flow.** On every machine that comes about in a session,
also between the steps of a statement, and that has no signals, runs without a `return` in a clause
of a `for` keep the discipline. They need not be runs of silent code: it is enough that they do not
get to such a `for`. -/
theorem signalDiscipline {m : Machine} (h : Attained m) (hq : m.Quiet) (fuel : Nat) :
    SignalDiscipline fuel m := by
  have hm : signalContract.inv m := ⟨h.formed, hq⟩
  -- the silent evaluator and the flow of control go along with the evaluation
  have B := below_eval fuel
  -- a silent run does not give up
  have hsame : ∀ {α : Type} {x : Evaluator → Exec α}, SilentRun fuel x m →
      x (evalSilent fuel) m = x (eval fuel) m := fun hsilent => hsilent _
  have hnode : ∀ {node}, IsStatement node → SilentRun fuel (· node) m → Together AnyValue m
      (eval fuel node m) (eval fuel node m) (flow (fun k => eval k) fuel node m) := by
    intro node hstatement hsilent
    have htogether := B.run hstatement m hm
    rwa [hsame hsilent] at htogether
  have hbody : ∀ {routine : Routine}, routine.BodyIn IsStatement → ∀ args, signalContract.Kept
      (flowBody (flowBlock (flow (fun k => eval k) fuel) routine.body) routine args)
      (runBody (evalSilent fuel) routine args) :=
    fun hroutine args => (Follows.body (Follows.block fun n hn => B.run (hroutine n hn)) args).2
  -- each kind of code runs under the same contract, and only its entry and its exit differ
  constructor
  case silent => exact fun hs => silentRuns h hs fuel
  case failure =>
    intro node e m' hstatement hsilent hend
    have htogether := hnode hstatement hsilent
    rw [hend] at htogether
    exact htogether.quiet_of_error
  case expression =>
    intro node v m' hexpr hsilent hend
    have hmeets := B.ask hexpr m hm
    have hmoves := hmeets.moves
    rw [hsame hsilent, hend] at hmoves
    exact hmoves.inv.2
  case statement =>
    intro node v m' hstatement hsilent hend
    have htogether := hnode hstatement hsilent
    rw [hend] at htogether
    rcases htogether.signals_of_ok with ⟨-, hquiet⟩ | ⟨_, -, hone⟩
    · exact .inl hquiet
    · exact .inr hone
  case block =>
    intro nodes b m' hstatements hsilent hend
    have htogether := Follows.block (fun n hn => B.run (hstatements n hn)) m hm
    rw [hsame hsilent, hend] at htogether
    obtain ⟨hstops, hb⟩ := runBlock_stopsAtSignal (pending_of_quiet hm) hend
    refine ⟨hstops, by rw [hb], ?_⟩
    rcases htogether.signals_of_ok with ⟨-, hquiet⟩ | ⟨_, -, hone⟩
    · exact .inl hquiet
    · exact .inr hone
  case call =>
    intro routine args v m' hroutine hsilent hend
    obtain ⟨same, moves⟩ := Contract.kept_asFunction signal_nested (hbody hroutine args) m hm
    rw [← invoke_eq, hsame hsilent, hend] at same moves
    exact ⟨moves.inv.2, same.resolve_left nofun⟩
  case method =>
    intro o routine args v m' hroutine hsilent hend
    obtain ⟨same, moves⟩ :=
      Contract.kept_asMethod signal_nested o routine.signature (hbody hroutine args) m hm
    rw [← runMethod_eq, hsame hsilent, hend] at same moves
    exact ⟨moves.inv.2, same.resolve_left nofun⟩
  case run =>
    intro source program ending m' hparse hsilent hrun hends
    have hkept := Follows.program fun n hn => B.run (isStatement_of_ofSource hparse n hn)
    have moves := (hkept m hm).moves
    rw [hsame hsilent] at moves
    unfold Machine.runWith at hrun
    rw [hparse] at hrun
    dsimp only at hrun
    rcases hend : runProgram (eval fuel) program m with ⟨_ | _ | _, m''⟩ <;>
      rw [hend] at hrun moves <;> cases hrun <;> exact moves.inv.2
  -- what the evaluation meets on its way is quiet whatever the others are given
  case throughout =>
    intro node hstatement hsilent hends other
    have B' := below_evalSilent (P := fun _ there => there.Quiet) (fun _ _ h => h.2) other fuel
    have htogether := B'.run hstatement m hm
    rw [hsame hsilent] at htogether
    exact htogether.same hends

/-- A call on a new machine, of a function that would fail after its `return`. -/
theorem signalDiscipline_call :
    ∃ m', invoke (eval 2) ⟨"f", [], [.giveBack (some (.int 7)), .raise (.str "late")]⟩ []
      (.new .empty (.ofBytes [])) = ⟨.ok (.int 7), m'⟩ ∧ m'.Quiet := by
  have D := signalDiscipline (.reachable (.idle (.new .empty (.ofBytes [])))) (quiet_new _ _) 2
  have hstatements : Routine.BodyIn IsStatement
      ⟨"f", [], [.giveBack (some (.int 7)), .raise (.str "late")]⟩ := by
    intro n hn
    rcases List.mem_pair.1 hn with rfl | rfl
    · exact .giveBack (.int 7)
    · exact .raise (.str "late")
  have F : Fragment (· ∈ [.int 7, .str "late", .giveBack (some (.int 7)), .raise (.str "late")])
      (· ∈ [.int 7, .str "late", .giveBack (some (.int 7)), .raise (.str "late")]) := by
    refine ⟨id, ?_, ?_⟩ <;> simp [Node.Parts, Node.statements]
  have hsilent : Routine.BodyIn SilentCode
      ⟨"f", [], [.giveBack (some (.int 7)), .raise (.str "late")]⟩ :=
    fun n hn => ⟨_, F, by simp [SilentClauses], by simp_all⟩
  exact ⟨_, rfl, (D.call hstatements ((D.silent (silent_new _)).call [] hsilent) rfl).1⟩

end BoxScript
