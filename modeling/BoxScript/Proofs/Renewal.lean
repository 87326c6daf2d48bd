import BoxScript.Proofs.Lockstep
import BoxScript.Proofs.Recovery

/-!
# The locals of functions between runs

A function of an instance keeps its locals from call to call, and its running calls share them. Yet
no call can tell what calls there were before it. Between the runs of a session no function is on a
level of its own, no signal is on its stack, and in its store there are the fields of its instance
or nothing (`environments_clean`). Since a call begins with the values that the fields have then, it
does not matter whether the function has the locals that it has had all the time or new ones
(`Machine.renewed`): whatever the session does next, it ends in the same way and leaves the same
behind.

This is so in sessions whose runs get to no `for` with a `return` in a clause, since such a `return`
may leave its signal on the stack of the method. If no source text and no file has such a `for`, no
run gets to one (`SilentlyWritten.session`).
-/

namespace BoxScript

/-! ## Sessions without returns in clauses -/

/-- The machines of a session between its runs, if these get to no `for` with a `return` in a
clause. -/
inductive SilentSession : Machine → Prop
  | new (files : Files) (console : Console) : SilentSession (.new files console)
  | run {m m' : Machine} {fuel : Nat} {source : String} {ending : Ending} (h : SilentSession m)
      (hrun : m.runWith fuel source = (ending, m')) (hends : ending ≠ .unfinished)
      (hsilent : m.RunsSilently fuel source) : SilentSession m'
  | recover {m : Machine} (h : SilentSession m) : SilentSession m.recover

/-- A source text whose program has no `for` with a `return` in a clause, if it has a program. -/
def SilentSource (source : String) : Prop :=
  ∀ program, Program.ofSource source = .ok program → ∀ n ∈ program, SilentCode n

/-- The machines of a session between its runs, if no `for` has a `return` in a clause in all source
texts and files. -/
inductive SilentlyWritten : Machine → Prop
  | new (files : Files) (console : Console)
      (hfiles : ∀ path source, files.readText path = .ok source → SilentSource source) :
      SilentlyWritten (.new files console)
  | run {m m' : Machine} {fuel : Nat} {source : String} {ending : Ending} (h : SilentlyWritten m)
      (hsource : SilentSource source) (hrun : m.runWith fuel source = (ending, m'))
      (hends : ending ≠ .unfinished) : SilentlyWritten m'
  | recover {m : Machine} (h : SilentlyWritten m) : SilentlyWritten m.recover

theorem SilentSession.idle {m : Machine} (h : SilentSession m) : Idle m := by
  induction h with
  | new files console => exact .new files console
  | run _ hrun hends _ ih => exact .run ih hrun hends
  | recover _ ih => exact .recover ih

/-- No signal is pending between the runs. -/
theorem SilentSession.quiet {m : Machine} (h : SilentSession m) : m.Quiet := by
  induction h with
  | new files console => exact quiet_new files console
  | run h hrun _ hsilent ih =>
    have hreach := Reachable.idle h.idle
    exact ih.of_wane hreach.orderly (hreach.wane hrun hsilent)
  | recover h ih => exact ih.recover h.idle

/-- Code that has no `return` in a clause gets to none. -/
theorem SilentlyWritten.session {m : Machine} (h : SilentlyWritten m) :
    SilentSession m ∧ m.Silent := by
  induction h with
  | new files console hfiles =>
    exact ⟨.new files console, codeIn_new _ _, fun hread hparse => hfiles _ _ hread _ hparse⟩
  | @run m m' fuel source ending _ hsource hrun hends ih =>
    obtain ⟨hsession, hsilent⟩ := ih
    have hreach := Reachable.idle hsession.idle
    refine ⟨.run hsession hrun hends fun program hparse => ?_, ?_⟩
    · exact (silentRuns (.reachable hreach) hsilent fuel).program (hsource program hparse)
    · have F := formContract_frames silentCode_fragment
      have hm : m.Formed SilentCode SilentCode :=
        ⟨hsilent.code, hsilent.scripts, hreach.formed.returns, hreach.formed.slots⟩
      rcases Machine.runWith_cases hrun with ⟨-, rfl⟩ | ⟨program, hparse, rfl⟩
      · exact hsilent
      · have hformed := (F.moves_runProgram hm fuel (hsource program hparse)).inv
        exact ⟨hformed.code, hformed.scripts⟩
  | recover _ ih =>
    exact ⟨.recover ih.1, ⟨ih.2.code.functions, ih.2.code.boxes, ih.2.code.extensions,
      ih.2.code.instances⟩, ih.2.scripts⟩

/-! ## New locals -/

/-- A slot with other locals, if it is the function with a signature. -/
def Slot.withLocals (signature : Signature) (locals : Locals) : Slot → Slot
  | .field name value access => .field name value access
  | .function routine access old =>
    .function routine access (if routine.signature = signature then locals else old)

/-- The machine on which a function of an instance has new locals: an empty store, an empty stack
and the lowest level. -/
def Machine.renewed (m : Machine) (o : Handle) (signature : Signature) : Machine :=
  let locals : Locals := ⟨m.heap.scopes.next, m.heap.returns.next, 0⟩
  { m with
    heap := { m.heap with
      scopes := m.heap.scopes.push .empty
      returns := m.heap.returns.push []
      instances := m.heap.instances.modify o fun i =>
        { i with slots := i.slots.map (·.withLocals signature locals) } } }

section Renewed

variable {m : Machine} {o : Handle} {signature : Signature} {routine : Routine} {access : Access}
  {locals : Locals}

/-- The cells of the locals of a function, and the new ones. -/
def Idle.renewal (h : Idle m) (hl : m.LocalsAt o locals) : Renewal where
  owner := o
  scopes := ⟨locals.scopes, m.heap.scopes.size, (Reachable.idle h).orderly.store_lt hl⟩
  returns := ⟨locals.returns, m.heap.returns.size, (Reachable.idle h).orderly.inRange hl⟩

/-- All other locals stay in their cells, and those of the function are in the new ones. -/
theorem Idle.slot_renewal (h : Idle m)
    (hfound : (m.instanceAt o).method? signature = some (routine, access, locals)) {k : Handle}
    {slot : Slot} (hslot : slot ∈ (m.instanceAt k).slots) :
    (h.renewal (localsAt_of_method? hfound)).slot slot
      = if k = o then slot.withLocals signature ⟨m.heap.scopes.next, m.heap.returns.next, 0⟩
        else slot := by
  have hm := (Reachable.idle h).orderly
  have hl := localsAt_of_method? hfound
  obtain ⟨hmethod, hsignature⟩ := Instance.method?_eq_some hfound
  have hregular := hm.shaped.instances o
  cases slot with
  | field => split <;> rfl
  | function r a l =>
    have hother : m.LocalsAt k l := ⟨r, a, hslot⟩
    -- cells tell functions apart: the slot with the store of the function is the function, and any
    -- other has its own store and its own stack, which stay where they are
    by_cases hscopes : l.scopes = locals.scopes
    · obtain ⟨rfl, rfl⟩ := hm.shaped.locals_eq hother hl hscopes
      cases eq_of_nodup_filterMap hregular.stores hslot hmethod rfl rfl
      have hlocals : (h.renewal hl).locals l = ⟨m.heap.scopes.next, m.heap.returns.next, 0⟩ := by
        unfold Renewal.locals
        rw [h.atRest k l hl]
        exact congrArg₂ (Locals.mk · · 0) (Relocation.moved_old _) (Relocation.moved_old _)
      rw [if_pos rfl, Slot.withLocals, if_pos hsignature, Renewal.slot, hlocals]
    · have hreturns : l.returns ≠ locals.returns := fun heq => hscopes (hm.apart hother hl heq)
      have hlocals : (h.renewal hl).locals l = l :=
        congrArg₂ (Locals.mk · · l.level) (Relocation.moved_of_lt _ hscopes (hm.store_lt hother))
          (Relocation.moved_of_lt _ hreturns (hm.inRange hother))
      have hdiffers : k = o → r.signature ≠ signature := by
        rintro rfl heq
        cases eq_of_nodup_filterMap hregular.methods hslot hmethod rfl
          (congrArg some (hsignature.trans heq.symm))
        exact hscopes rfl
      rw [Renewal.slot, hlocals]
      split
      · next hk => rw [Slot.withLocals, if_neg (hdiffers hk)]
      · rfl

/-- The instances are those from before, with all locals in the cells in which they are found. -/
theorem Idle.instances_renewal (h : Idle m)
    (hfound : (m.instanceAt o).method? signature = some (routine, access, locals)) :
    m.heap.instances.Mapped (h.renewal (localsAt_of_method? hfound)).relocate
      (m.renewed o signature).heap.instances where
  size := Pool.size_modify _ _ _
  get k := by
    have hslots : ((h.renewal (localsAt_of_method? hfound)).relocate (m.instanceAt k)).slots
        = if k = o then (m.instanceAt k).slots.map
            (·.withLocals signature ⟨m.heap.scopes.next, m.heap.returns.next, 0⟩)
          else (m.instanceAt k).slots := by
      refine (List.map_congr_left fun slot => h.slot_renewal hfound).trans ?_
      split
      · rfl
      · exact List.map_id _
    have ho : o.index < m.heap.instances.size :=
      Holders.owns_lt (localsAt_of_method? hfound).owns
    refine (Pool.get_modify _ _ _ _).trans ?_
    by_cases hk : k = o
    · rw [if_pos hk] at hslots
      rw [if_pos ⟨hk, ho⟩]
      exact congrArg (Instance.mk _) hslots.symm
    · rw [if_neg hk] at hslots
      rw [if_neg fun hc => hk hc.1]
      exact congrArg (Instance.mk _) hslots.symm

/-- The code between runs works on none of the functions. -/
theorem Idle.context_renewal (h : Idle m) (hl : m.LocalsAt o locals) :
    m.context = (h.renewal hl).context m.context := by
  have hm := (Reachable.idle h).orderly
  have hscopes : m.context.scopes ≠ locals.scopes := by
    intro heq
    have hinner := hm.inner hl
    rw [← heq, h.context_eq] at hinner
    exact Nat.lt_irrefl 0 hinner
  have hreturns : m.context.returns ≠ locals.returns := fun heq =>
    hscopes ((hm.paired hl).2 heq.symm).symm
  unfold Renewal.context
  rw [show (h.renewal hl).scopes.moved m.context.scopes = m.context.scopes from
      Relocation.moved_of_lt _ hscopes hm.shaped.lasting.active.inRange,
    show (h.renewal hl).returns.moved m.context.returns = m.context.returns from
      Relocation.moved_of_lt _ hreturns hm.stack]

/-- **A machine between silent runs is like the one on which a function has new locals.** -/
theorem SilentSession.alike_renewed (h : SilentSession m)
    (hfound : (m.instanceAt o).method? signature = some (routine, access, locals)) :
    (h.idle.renewal (localsAt_of_method? hfound)).Alike True m (m.renewed o signature) := by
  have hm := (Reachable.idle h.idle).orderly
  have hl := localsAt_of_method? hfound
  have hcontext := h.idle.context_renewal hl
  obtain ⟨hinner, hnames⟩ := h.idle.seeded_store hl
  constructor
  case context => exact hcontext
  case scopes =>
    -- the function waits: the new store is empty, and the old one has fields of the instance at
    -- most
    refine .inr ⟨trivial, ?_⟩
    constructor
    case others => exact .of_push m.heap.scopes (hm.store_lt hl) .empty
    case fresh => exact Pool.get_push_next m.heap.scopes .empty
    case away =>
      intro heq
      have hstays : (h.idle.renewal hl).scopes.moved m.context.scopes = m.context.scopes :=
        (congrArg Context.scopes hcontext).symm
      rw [heq] at hstays
      exact Relocation.moved_old_ne _ hstays
    case inner => exact hinner
    case names => exact hnames
    case regular => exact (hm.shaped.instances o).fieldNames
    case owner =>
      intro k
      refine ⟨fun howns => hm.shaped.lasting.sound.apart howns hl.owns, ?_⟩
      rintro rfl
      exact hl.owns
  case returns =>
    refine (Pool.Shifted.of_push m.heap.returns (hm.inRange hl) []).complete ?_
    -- no signal is on the stack of a function between runs, so it is as empty as the new one
    refine (Pool.get_push_next m.heap.returns []).trans ?_
    exact (h.quiet.slots hl.hasLocals).symm
  case instances => exact h.idle.instances_renewal hfound
  all_goals rfl

end Renewed

/-! ## What a session goes on to do -/

/-- What is done next in a session: a source text is run, with so much fuel, or the session recovers
from a failure. -/
inductive SessionStep where
  | run (fuel : Nat) (source : String)
  | recover

/-- Go on with a session: how the runs end, and the machine after the last step. -/
def Machine.proceed : List SessionStep → Machine → List Ending × Machine
  | [], m => ([], m)
  | .run fuel source :: steps, m =>
    ((m.runWith fuel source).1 :: (proceed steps (m.runWith fuel source).2).1,
      (proceed steps (m.runWith fuel source).2).2)
  | .recover :: steps, m => proceed steps m.recover

/-- What there is to see of two machines is the same: the console with all that was written, the
tables and the variables of the code, the fields of all instances, and the dump. -/
structure Machine.LooksLike (m m' : Machine) : Prop where
  console : m'.console = m.console
  files : m'.files = m.files
  scopes : m'.scopes = m.scopes
  functions : m'.functions = m.functions
  boxes : m'.boxes = m.boxes
  extensions : m'.extensions = m.extensions
  fields : ∀ o, (m'.instanceAt o).fields = (m.instanceAt o).fields
  dump : m'.dump = m.dump

/-- Two computations end with the same result, on machines that look the same. -/
structure SameOutcome {α : Type} (o o' : Outcome α) : Prop where
  result : o'.result = o.result
  machine : o.machine.LooksLike o'.machine

/-- Whatever a session goes on to do, on the one machine or on the other, its runs end in the same
way, the machine looks the same after each of them, and so do the outcomes of calls and of all other
evaluations then. -/
structure Machine.SameFuture (m m' : Machine) : Prop where
  endings : ∀ steps, (m'.proceed steps).1 = (m.proceed steps).1
  machine : ∀ steps, (m.proceed steps).2.LooksLike (m'.proceed steps).2
  call : ∀ steps fuel o routine args,
    SameOutcome (runMethod (eval fuel) o routine args (m.proceed steps).2)
      (runMethod (eval fuel) o routine args (m'.proceed steps).2)
  evaluation : ∀ steps fuel node,
    SameOutcome (eval fuel node (m.proceed steps).2) (eval fuel node (m'.proceed steps).2)

namespace Renewal

variable {ρ : Renewal} {waits : Prop} {m m' : Machine}

theorem Alike.looksLike (h : ρ.Alike waits m m') : m.LooksLike m' where
  console := h.console
  files := h.files
  scopes := h.store
  functions := h.functions_eq
  boxes := h.boxes_eq
  extensions := h.extensions_eq
  fields o := by rw [h.instanceAt, fields_relocate]
  dump := by
    have hscope : Machine.dumpScope m'.heap = Machine.dumpScope m.heap := by
      funext level bound
      unfold Machine.dumpScope
      simp only [h.printable]
    unfold Machine.dump
    rw [h.store, h.functions_eq, h.boxes_eq, hscope]

theorem Agree.sameOutcome {α : Type} {o o' : Outcome α} (h : ρ.Agree waits o o') :
    SameOutcome o o' := by
  cases h with
  | of h => exact ⟨rfl, h.looksLike⟩

theorem Alike.recover (h : ρ.Alike waits m m') : ρ.Alike waits m.recover m'.recover :=
  have hcalm := ((h.withDepth 0).atLevel 0).withClause false
  (hcalm.updateReturns fun _ => []).updateScopes (·.close 0)

/-- No run can tell. -/
theorem Alike.runWith (h : ρ.Alike waits m m') (fuel : Nat) (source : String) :
    (m'.runWith fuel source).1 = (m.runWith fuel source).1 ∧
      ρ.Alike waits (m.runWith fuel source).2 (m'.runWith fuel source).2 := by
  unfold Machine.runWith
  cases Program.ofSource source with
  | error e => exact ⟨rfl, h⟩
  | ok program =>
    have hrun := blind_runProgram (blind_eval fuel) program h
    dsimp only
    generalize runProgram (eval fuel) program m = o at hrun
    generalize runProgram (eval fuel) program m' = o' at hrun
    cases hrun with
    | @of result _ _ h => cases result <;> exact ⟨rfl, h⟩

/-- No session can tell. -/
theorem Alike.proceed (h : ρ.Alike waits m m') (steps : List SessionStep) :
    (m'.proceed steps).1 = (m.proceed steps).1 ∧
      ρ.Alike waits (m.proceed steps).2 (m'.proceed steps).2 := by
  induction steps generalizing m m' with
  | nil => exact ⟨rfl, h⟩
  | cons step steps ih =>
    cases step with
    | run fuel source =>
      obtain ⟨hending, hrun⟩ := h.runWith fuel source
      obtain ⟨hendings, hlast⟩ := ih hrun
      exact ⟨congrArg₂ List.cons hending hendings, hlast⟩
    | recover => exact ih h.recover

/-- Machines that are alike stay so in every session. -/
theorem Alike.sameFuture (h : ρ.Alike waits m m') : m.SameFuture m' where
  endings steps := (h.proceed steps).1
  machine steps := (h.proceed steps).2.looksLike
  call steps fuel o routine args :=
    (blind_runMethod (blind_eval fuel) o routine args (h.proceed steps).2).sameOutcome
  evaluation steps fuel node := (blind_eval fuel node (h.proceed steps).2).sameOutcome

end Renewal

/-! ## Between runs -/

/-- The locals of all functions are clean: no function is on a level of its own or has a signal
pending, and its variables are the fields of its instance or there are none. And it does not matter
which locals it has. -/
structure CleanEnvironments (m : Machine) : Prop where
  level : ∀ {o l}, m.LocalsAt o l → l.level = 0
  returns : ∀ {o l}, m.LocalsAt o l → m.heap.returns.get l.returns = []
  /-- There is nothing above the global level. -/
  inner : ∀ {o l}, m.LocalsAt o l → (m.heap.scopes.get l.scopes).inner = []
  /-- The global variables are none, or the fields of the instance in their order. -/
  globals : ∀ {o l}, m.LocalsAt o l →
    m.namesIn l.scopes = [] ∨ m.namesIn l.scopes = (m.instanceAt o).names
  /-- No field is bound twice. -/
  distinct : ∀ o, (m.instanceAt o).names.Nodup
  /-- A function may as well have new locals. -/
  renewed : ∀ {o signature found}, (m.instanceAt o).method? signature = some found →
    m.SameFuture (m.renewed o signature)

/-- **Between silent runs the locals of all functions are clean.** Take any session, its runs having
succeeded or failed, in the course of which no `for` had a `return` in a clause. Then each function
of each instance is on level zero, has no signal pending, and has no variables but the fields of its
instance, all of them or none. Giving it new locals changes nothing of what the session does later:
neither how runs end nor what they write, what calls give, or which fields instances have then. -/
theorem environments_clean {m : Machine} (h : SilentSession m) : CleanEnvironments m where
  level hl := h.idle.atRest _ _ hl
  returns hl := h.quiet.slots hl.hasLocals
  inner hl := (h.idle.seeded_store hl).1
  globals hl := (h.idle.seeded_store hl).2
  distinct o := ((Reachable.idle h.idle).orderly.shaped.instances o).fieldNames
  renewed hfound := (h.alike_renewed hfound).sameFuture

namespace OneCell

/-- A call of the method of the cell. -/
def call : Program := [.method (.named "b") ⟨"f", [.var "b"]⟩ []]

/-- The machine after that call. -/
def called : Machine := (runProgram (eval 6) call machine).machine

/-- The nodes of the program and the call, and of all that they are made of. -/
def code : List Node :=
  program ++ call ++ put.body ++ [.create "anonymous_0", .str "", .var "o", .var "b"]

/-- The code of the example is closed: whatever a node is made of is in the list. -/
theorem fragment_code : Fragment (· ∈ code) (· ∈ code) where
  expression := id
  parts := by
    simp only [code, program, call, put, Node.Parts, BoxDef.ofDecl, List.cons_append,
      List.nil_append, List.mem_cons, List.not_mem_nil, or_false, forall_eq_or_imp, forall_eq]
    constructor
    · constructor <;> simp [FieldInit.In, Routine.BodyIn]
    · simp
  below := by simp [code, program, call, put, Node.statements]

theorem silentCode {n : Node} (h : n ∈ program ++ call) : SilentCode n := by
  refine ⟨_, fragment_code, ?_, List.mem_append_left _ (List.mem_append_left _ h)⟩
  simp [code, program, call, put, SilentClauses]

theorem silentlyWritten_called : SilentlyWritten called := by
  have hcalled : machine.runWith 6 "b.f(b)" = (.finished, called) := by
    unfold Machine.runWith
    rw [parsed_call]
    rfl
  have hsource : ∀ {source : String} {p : Program}, Program.ofSource source = .ok p →
      (∀ n ∈ p, n ∈ program ++ call) → SilentSource source := by
    intro source p hparse hin q hq n hn
    cases hparse.symm.trans hq
    exact silentCode (hin n hn)
  have hnew : SilentlyWritten (.new .empty (.ofBytes [])) :=
    .new _ _ fun path source hread => absurd hread (Files.readText_empty path source)
  have hends : Ending.finished ≠ .unfinished := by rintro ⟨⟩
  refine .run (.run hnew (hsource parsed ?_) run_program hends) (hsource parsed_call ?_) hcalled
    hends
  · exact fun n hn => List.mem_append_left _ hn
  · exact fun n hn => List.mem_append_right _ hn

end OneCell

/-- After a call the store of the method holds the field of the cell, and new locals have an empty
store. -/
theorem environments_clean_cell :
    SilentSession OneCell.called ∧
      (OneCell.called.instanceAt ⟨0⟩).method? OneCell.put.signature
        = some (OneCell.put, .exposed, ⟨⟨1⟩, ⟨1⟩, 0⟩) ∧
      OneCell.called.namesIn ⟨1⟩ = ["x"] ∧
      ((OneCell.called.renewed ⟨0⟩ OneCell.put.signature).instanceAt ⟨0⟩).method?
        OneCell.put.signature = some (OneCell.put, .exposed, ⟨⟨2⟩, ⟨2⟩, 0⟩) ∧
      (OneCell.called.renewed ⟨0⟩ OneCell.put.signature).namesIn ⟨2⟩ = [] ∧
      OneCell.called.SameFuture (OneCell.called.renewed ⟨0⟩ OneCell.put.signature) := by
  have hsession := OneCell.silentlyWritten_called.session.1
  have hfound : (OneCell.called.instanceAt ⟨0⟩).method? OneCell.put.signature
      = some (OneCell.put, .exposed, ⟨⟨1⟩, ⟨1⟩, 0⟩) := by cbv
  have hclean := environments_clean hsession
  exact ⟨hsession, hfound, by cbv, by cbv, by cbv, hclean.renewed hfound⟩

end BoxScript
