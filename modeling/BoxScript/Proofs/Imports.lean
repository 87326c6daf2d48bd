import BoxScript.Proofs.Discipline
import BoxScript.Proofs.Pins
import BoxScript.Proofs.Sight

/-!
# Imports

An imported script runs on copies of the tables of its importer. When it fails, the copies are
thrown away, and when it ends well, the importer gets what they have on top. So much can be seen in
`importSource`. What the theorems add is that the script gets to the importer's tables in no other
way: they stay as they are through all that it calls (`failed_import`), and what it has on top is
new for the importer, at the level of the import, and hides nothing (`import_only_adds`).

Instances are not copied. A script that fails has changed those whose fields it has set and those
whose methods it has called, and if the importer is itself the code of such a method, then also the
variables and the signals of the importer.
-/

namespace BoxScript

/-! ## The tables of the importer -/

/-- The table of extensions of the context is there. -/
def extensionContract : Contract where
  lax := False
  inv m := m.context.extensions.index < m.heap.extensions.size
  rel m m' := m.heap.extensions.size ≤ m'.heap.extensions.size

/-- A fork adds a table of extensions and takes none away. -/
theorem Machine.size_extensions_forked (m : Machine) :
    m.heap.extensions.size ≤ m.forked.heap.extensions.size := by
  show m.heap.extensions.size ≤ (m.heap.extensions.push _).size
  rw [Pool.size_push]
  omega

/-- No step loses the table of extensions in use. -/
theorem extension_frames : extensionContract.Frames AnyNode AnyNode where
  everywhere := ⟨fun _ _ => trivial, fun _ _ => trivial⟩
  fragment := anyNode_language.toFragment
  scripts {m} _ := anyNode_language.scriptsIn m
  code {m} _ := m.codeIn_any
  refl _ := Nat.le_refl _
  trans := Nat.le_trans
  console _ hm := ⟨hm, Nat.le_refl _⟩
  assign _ _ _ moves := ⟨moves.inv, Nat.le_refl _⟩
  declare _ _ hm := ⟨hm, Nat.le_refl _⟩
  register _ _ _ hm := ⟨hm, Nat.le_refl _⟩
  extend {m} _ _ _ hm := by
    refine ⟨?_, Nat.le_of_eq (Pool.size_modify _ _ _).symm⟩
    show m.context.extensions.index < (m.heap.extensions.modify _ _).size
    rw [Pool.size_modify]
    exact hm
  allocate := by
    intro _ m _ d fields _ _ _ _ hm
    obtain ⟨methods, heap, grown, -, hmade⟩ := allocate_cases d fields m
    have hsame : m.heap.extensions.size = heap.extensions.size := by rw [grown.extensions]
    rw [hmade]
    exact ⟨Nat.lt_of_lt_of_eq hm hsame, Nat.le_of_eq hsame⟩
  setField _ _ _ hm := ⟨hm, Nat.le_refl _⟩
  linkIn _ hm := hm
  linkOut _ _ moves := ⟨moves.inv, moves.rel⟩
  linkRefused hm := ⟨hm, Nat.le_refl _⟩
  push _ hm := ⟨hm, Nat.le_refl _⟩
  dropSignal hm := ⟨hm, Nat.le_refl _⟩
  bindParams _ _ hm := ⟨hm, Nat.le_refl _⟩
  scopeIn _ hm := hm
  scopeOut _ _ moves := ⟨moves.inv, moves.rel⟩
  clauseIn hm := hm
  clauseOut _ moves := ⟨moves.inv, moves.rel⟩
  callIn hm _ := hm
  callOut _ _ moves := ⟨moves.inv, moves.rel⟩
  methodIn hm _ := hm
  methodOut hm _ moves := ⟨Nat.lt_of_lt_of_le hm moves.rel, moves.rel⟩
  fork {m} _ := Nat.lt_of_lt_of_eq (Nat.lt_succ_self _) (m.heap.extensions.size_push _).symm
  merge {m sub} hm moves := by
    have hmore := Nat.le_trans m.size_extensions_forked moves.rel
    have hsize : (m.merged sub).heap.extensions.size = sub.heap.extensions.size :=
      Machine.Formed.size_mergeCell _ _ _ _
    exact ⟨Nat.lt_of_lt_of_eq (Nat.lt_of_lt_of_le hm hmore) hsize.symm,
      Nat.le_trans hmore (Nat.le_of_eq hsize.symm)⟩
  discard {m sub _} _ hm moves :=
    have hmore := Nat.le_trans m.size_extensions_forked moves.rel
    ⟨Nat.lt_of_lt_of_le hm hmore, hmore⟩

theorem Reachable.extensions {m : Machine} (h : Reachable m) :
    m.context.extensions.index < m.heap.extensions.size :=
  extension_frames.inv_of_reachable anyNode_language id (fun _ _ => Nat.zero_lt_one)
    (fun _ _ hm => hm) h

theorem Attained.extensions {m : Machine} (h : Attained m) :
    m.context.extensions.index < m.heap.extensions.size :=
  extension_frames.inv_of_attained (fun _ => trivial) Reachable.extensions h

/-- What holds of all nodes that an imported script evaluates, if it can be parsed. -/
def ScriptKeepsTo (P : Node → Machine → Prop) (fuel : Nat) (source : String) (m : Machine) : Prop :=
  ∀ program, Program.ofSource source = .ok program →
    Throughout P fuel (runProgram · program) m.forked

/-- Pinned cells of the importer outlast a script that spares them. -/
theorem Machine.Pinned.ofScript {P : Pins} {m : Machine} {fuel : Nat} {program : Program}
    (hspares : Throughout (P.Spares m) fuel (runProgram · program) m.forked) :
    Machine.Pinned P m (runProgram (eval fuel) program m.forked).machine := by
  have F := pin_rules P m
  have hlifts : (pinContract P m).Lifts AnyNode (α := Unit) (runProgram · program) m.forked :=
    Tracked.lifts_runProgram F.toGround (fun n _ => anyNode n)
      (Machine.Pinned.forked (Machine.Keeps.refl P m))
  exact (F.moves_of_throughout (pin_writable P m) trivial hlifts hspares).inv

/-- The tables that hold declarations. -/
def Pins.declarations : Pins where
  functions _ := True
  boxes _ := True
  extensions _ := True

/-- A script declares nothing in the tables that were there before it. -/
theorem Pins.spares_declarations (m : Machine) (node : Node) (there : Machine) :
    declarations.Spares m node there where
  calls _ := ⟨fun _ => id, fun _ _ => id, fun _ _ => id⟩
  sets _ _ := id

/-- The variables and the signals of the code. -/
def Machine.workplace (m : Machine) : Pins where
  scopes := (· = m.context.scopes)
  returns := (· = m.context.returns)

/-- The node calls the method whose code the machine `m` runs. -/
def Node.Reenters (node : Node) (there m : Machine) : Prop :=
  ∃ o signature, (m.instanceAt o).HasStore signature m.context.scopes ∧
    node.CallsMethod there o signature

/-- A script leaves the workplace of its caller alone unless it calls the method that runs there. -/
theorem Machine.Orderly.spares_workplace {m : Machine} (hm : m.Orderly) {node : Node}
    {there : Machine} (h : ¬node.Reenters there m) : m.workplace.Spares m node there where
  calls {o signature} hcalls := by
    -- the stack of the code is in use with its store only
    have hother : ∀ {s r}, (m.instanceAt o).RunsOn signature s r → s ≠ m.context.scopes := by
      rintro s r ⟨routine, access, level, hslot, hsignature⟩ rfl
      exact h ⟨o, signature, ⟨routine, access, r, level, hslot, hsignature⟩, hcalls⟩
    refine ⟨fun _ => id, fun hruns _ => hother hruns, fun {s r} hruns _ hreturns => ?_⟩
    obtain ⟨level, hlocals⟩ := hruns.hasLocals.localsAt
    exact hother hruns ((hm.paired hlocals).2 hreturns)
  sets _ _ := id

/-- Code outside of methods cannot be entered again. -/
theorem Machine.Outer.not_reenters {m : Machine} (h : m.Outer) (node : Node) (there : Machine) :
    ¬node.Reenters there m := by
  rintro ⟨o, signature, ⟨routine, access, returns, level, hslot, -⟩, -⟩
  exact h o ⟨returns, routine, access, level, hslot⟩

/-- The node may change the instance: it calls one of its methods, or sets one of its fields. -/
def Node.Touches (node : Node) (there : Machine) (o : Handle) : Prop :=
  (∃ signature, node.CallsMethod there o signature) ∨ node.SetsField there o

theorem Pins.spares_instance (m : Machine) {node : Node} {there : Machine} {o : Handle}
    (h : ¬node.Touches there o) : Pins.Spares { instances := (· = o) } m node there where
  calls hcalls :=
    { instances := fun _ heq => h (.inl ⟨_, heq ▸ hcalls⟩)
      scopes := fun _ _ => id
      returns := fun _ _ => id }
  sets hsets _ heq := h (.inr (heq ▸ hsets))

/-! ## Failed imports -/

section Cases

variable {ev : Evaluator} {source : String} {m m' : Machine}

/-- An import fails since its script cannot be parsed, or since it fails. -/
theorem importSource_eq_error {e : RuntimeError} (h : importSource ev source m = ⟨.error e, m'⟩) :
    (m' = m ∧ ∃ e', Program.ofSource source = .error e' ∧ e = .importFailed e'.display) ∨
      ∃ program e' sub, Program.ofSource source = .ok program ∧
        runProgram ev program m.forked = ⟨.error e', sub⟩ ∧ e = .importFailed e'.message ∧
        m' = m.discarded sub m.chained := by
  cases hparse : Program.ofSource source with
  | error e' =>
    rw [importSource_of_error hparse] at h
    cases h
    exact .inl ⟨rfl, e', rfl, rfl⟩
  | ok program =>
    rw [importSource_of_ok hparse] at h
    rcases hrun : runProgram ev program m.forked with ⟨_ | e' | _, sub⟩ <;> rw [hrun] at h
    · cases h
    · cases h
      exact .inr ⟨program, e', sub, rfl, hrun, rfl, rfl⟩
    · cases h

/-- An import ends well if its script does. -/
theorem importSource_eq_ok (h : importSource ev source m = ⟨.ok (), m'⟩) :
    ∃ program sub, Program.ofSource source = .ok program ∧
      runProgram ev program m.forked = ⟨.ok (), sub⟩ ∧ m' = m.merged sub := by
  cases hparse : Program.ofSource source with
  | error e' =>
    rw [importSource_of_error hparse] at h
    cases h
  | ok program =>
    rw [importSource_of_ok hparse] at h
    rcases hrun : runProgram ev program m.forked with ⟨_ | e' | _, sub⟩ <;> rw [hrun] at h
    · cases h
      exact ⟨program, sub, rfl, hrun, rfl⟩
    · cases h
    · cases h

end Cases

/-- What a failed import leaves of the importer. -/
structure FailedImport (fuel : Nat) (source : String) (m m' : Machine) (e : RuntimeError) :
    Prop where
  /-- The error says that the import failed. -/
  wrapped : ∃ text, e = .importFailed text
  context : m'.context = m.context
  depth : m'.depth = m.depth
  chained : m'.chained = m.chained
  files : m'.files = m.files
  functions : m'.functions = m.functions
  boxes : m'.boxes = m.boxes
  extensions : m'.extensions = m.extensions
  /-- Outside of methods the variables and the signals are as they were. -/
  outer : m.Outer → m'.scopes = m.scopes ∧ m'.returns = m.returns
  /-- Inside a method they are unless the script calls that method. -/
  inner : ScriptKeepsTo (fun node there => ¬node.Reenters there m) fuel source m →
    m'.scopes = m.scopes ∧ m'.returns = m.returns
  /-- An instance is as it was unless the script calls a method of it or sets a field. -/
  instances : ∀ o, o.index < m.heap.instances.size →
    ScriptKeepsTo (fun node there => ¬node.Touches there o) fuel source m →
    m'.instanceAt o = m.instanceAt o

/-- **A failed import leaves its importer as it was**, except for instances that the script has
changed, and except for the code of a method that the script has called again. -/
theorem failed_import {m : Machine} (h : Attained m) {fuel : Nat} {source : String}
    {e : RuntimeError} {m' : Machine}
    (hfails : importSource (eval fuel) source m = ⟨.error e, m'⟩) :
    FailedImport fuel source m m' e := by
  have hm := h.orderly
  -- a source that does not parse has done nothing; a script that failed has left what it shares
  rcases importSource_eq_error hfails with
    ⟨rfl, e', -, rfl⟩ | ⟨program, e', sub, hparse, hrun, rfl, rfl⟩
  · exact ⟨⟨_, rfl⟩, rfl, rfl, rfl, rfl, rfl, rfl, rfl, fun _ => ⟨rfl, rfl⟩, fun _ => ⟨rfl, rfl⟩,
      fun _ _ _ => rfl⟩
  have hsub : (runProgram (eval fuel) program m.forked).machine = sub := by rw [hrun]
  -- what is not to change is pinned; a pin holds through the run of a script that spares it
  have pinned : ∀ {P : Pins}, Throughout (P.Spares m) fuel (runProgram · program) m.forked →
      Machine.Pinned P m sub := fun hspares => hsub ▸ Machine.Pinned.ofScript hspares
  have hdeclarations := pinned ((throughout_true _ _ _).mono fun n t _ =>
    Pins.spares_declarations m n t)
  have hworkplace : Throughout (fun node there => ¬node.Reenters there m) fuel
      (runProgram · program) m.forked → sub.heap.scopes.get m.context.scopes = m.scopes ∧
        sub.heap.returns.get m.context.returns = m.returns := by
    intro hnever
    have hkeeps := pinned (hnever.mono fun n t => hm.spares_workplace)
    exact ⟨hkeeps.scopes.same hm.shaped.lasting.active.inRange rfl,
      hkeeps.returns.same hm.stack rfl⟩
  exact
    { wrapped := ⟨_, rfl⟩
      context := rfl
      depth := rfl
      chained := rfl
      files := hdeclarations.files
      functions := hdeclarations.functions.same hm.shaped.functions trivial
      boxes := hdeclarations.boxes.same hm.shaped.boxes trivial
      extensions := hdeclarations.extensions.same h.extensions trivial
      outer := fun houter => hworkplace ((throughout_true _ _ _).mono fun n t _ =>
        houter.not_reenters n t)
      inner := fun hnever => hworkplace (hnever program hparse)
      instances := fun o ho hnever =>
        (pinned ((hnever program hparse).mono fun n t => Pins.spares_instance m)).instances.same ho
          rfl }

/-- A script that only throws leaves the cell as it was. -/
theorem failed_import_cell :
    ∃ m', importSource (eval 2) "throw \"\"" OneCell.machine = ⟨.error (.importFailed ""), m'⟩ ∧
      m'.scopes = OneCell.machine.scopes ∧
      m'.instanceAt ⟨0⟩ = OneCell.machine.instanceAt ⟨0⟩ := by
  have hscan : Token.scan "throw \"\"" = .ok [(.keyword .raise, ⟨0, 5⟩), (.str "", ⟨6, 8⟩)] := by
    decide +kernel
  have hparse : Program.ofSource "throw \"\"" = .ok [.raise (.str "")] := by
    rw [ofSource_of_scan hscan]
    cbv
  have hfails := importSource_of_ok hparse (eval 2) OneCell.machine
  have hkept := failed_import (.reachable OneCell.reachable) hfails
  have houter := (Reachable.orderly OneCell.reachable).outer rfl
  refine ⟨_, hfails, (hkept.outer houter).1, hkept.instances ⟨0⟩ Nat.zero_lt_one ?_⟩
  rintro program hprogram other
  cases hparse.symm.trans hprogram
  -- neither of the two nodes calls a method or sets a field
  have hpassive : ∀ {node : Node} {there : Machine}, node.isAct = false →
      ¬node.Touches there ⟨0⟩ := by
    rintro node there hpassive (⟨_, _, _, _, rfl, -⟩ | ⟨_, _, _, rfl, -⟩ | ⟨_, _, _, _, rfl, -⟩) <;>
      cases hpassive
  have htext : evalOr (fun node there => ¬node.Touches there ⟨0⟩) other 1 (.str "")
      = eval 1 (.str "") := funext fun there => evalOr_of_holds (hpassive rfl)
  have hraise : evalOr (fun node there => ¬node.Touches there ⟨0⟩) other 2 (.raise (.str ""))
      OneCell.machine.forked = eval 2 (.raise (.str "")) OneCell.machine.forked := by
    rw [evalOr_of_holds (hpassive rfl)]
    show (evalOr _ other 1 (.str "") >>= fun v => _ : Exec Value) _ = _
    rw [htext]
    rfl
  show runProgram (evalOr _ other 2) [.raise (.str "")] _
    = runProgram (eval 2) [.raise (.str "")] _
  simp only [runProgram, hraise]

namespace OneCell

/-- The machine inside the method, before its first statement. -/
def inside : Machine := (machine.entered ⟨0⟩ put.signature ⟨⟨1⟩, ⟨1⟩, 0⟩).bound put [.object ⟨0⟩]

/-- If the first statement of the method fails, so does the method. -/
theorem runMethod_put {ev : Evaluator} {e : RuntimeError}
    (hset : ev (.setField "o" "x" (.var "o")) inside = ⟨.error e, inside⟩) :
    (runMethod ev ⟨0⟩ put [.object ⟨0⟩] machine).result = .error e := by
  have hfound : (machine.instanceAt ⟨0⟩).method? put.signature
      = some (put, .exposed, ⟨⟨1⟩, ⟨1⟩, 0⟩) := by cbv
  have hblock : runBlock ev put.body inside = ⟨.error e, inside⟩ := by
    simp only [put, runBlock, hset]
  have hbody : runBody ev put [.object ⟨0⟩] (machine.entered ⟨0⟩ put.signature ⟨⟨1⟩, ⟨1⟩, 0⟩)
      = ⟨.error e, inside⟩ := by
    refine (Exec.bind_apply (runBlock ev put.body) _ inside).trans ?_
    rw [hblock]
  rw [runMethod_of_found (by cbv) hfound]
  exact congrArg Outcome.result hbody

/-- If the first statement of the method fails, so does the call. -/
theorem callChain_put {ev : Evaluator} {e : RuntimeError}
    (hvar : ev (.var "b") machine = ⟨.ok (.object ⟨0⟩), machine⟩)
    (hset : ev (.setField "o" "x" (.var "o")) inside = ⟨.error e, inside⟩) :
    (callChain ev (.named "b") ⟨"f", [.var "b"]⟩ [] machine).result = .error e := by
  have hargs : evalArgs ev [.var "b"] machine = ⟨.ok [.object ⟨0⟩], machine⟩ := by
    unfold evalArgs evalArgsFrom
    rw [hvar]
    rfl
  have hrun := runMethod_put hset
  rcases hput : runMethod ev ⟨0⟩ put [.object ⟨0⟩] machine with ⟨r, m'⟩
  rw [hput] at hrun
  cases hrun
  have hcall : callMethod ev ⟨0⟩ ⟨"f", [.var "b"]⟩ machine = ⟨.error e, m'⟩ := by
    refine (Exec.bind_apply (evalArgs ev [.var "b"]) (runMethod ev ⟨0⟩ put) machine).trans ?_
    rw [hargs]
    exact hput
  have hchain := Exec.bind_apply (callMethod ev ⟨0⟩ ⟨"f", [.var "b"]⟩)
    (fun v => chainFrom ev machine.context.boxes v []) machine
  rw [hcall] at hchain
  exact congrArg Outcome.result hchain

/-- The call gets to the first statement of the method. -/
theorem getsTo_put : GetsTo 4 (runProgram · [.method (.named "b") ⟨"f", [.var "b"]⟩ []]) machine
    (.setField "o" "x" (.var "o")) inside := by
  refine getsTo_of_fails fun e ev hfails hrule => ?_
  have hnode := hrule 3 (.method (.named "b") ⟨"f", [.var "b"]⟩ []) machine fun h => nomatch h.1
  have hchain := callChain_put (hrule 2 (.var "b") machine fun h => nomatch h.1) (hfails 2)
  change ev 4 _ machine = callChain (ev 3) _ _ _ machine at hnode
  rcases hend : callChain (ev 3) (.named "b") ⟨"f", [.var "b"]⟩ [] machine with ⟨r, m'⟩
  rw [hend] at hchain hnode
  cases hchain
  simp only [runProgram, hnode]

theorem reachable_inside : Reachable inside := .within idle parsed_call getsTo_put

end OneCell

/-- What a script has changed is not undone when it fails. A variable of the session holds an
instance whose field is another one after the import. And a method whose import calls it again has
another variable afterwards. -/
theorem failed_import_keeps_changes :
    (Reachable OneCell.machine ∧ OneCell.machine.scopes.get "b" 0 = .ok (.object ⟨0⟩) ∧
      ∃ m', importSource (eval 5) "b.x=b throw \"\"" OneCell.machine
          = ⟨.error (.importFailed ""), m'⟩ ∧
        (m'.instanceAt ⟨0⟩).field? "x" ≠ (OneCell.machine.instanceAt ⟨0⟩).field? "x") ∧
    (Reachable OneCell.inside ∧
      ∃ m', importSource (eval 5) "o.x=o o.f(o) throw \"\"" OneCell.inside
          = ⟨.error (.importFailed ""), m'⟩ ∧
        m'.scopes.get? 0 "x" ≠ OneCell.inside.scopes.get? 0 "x") := by
  constructor
  -- the script sets a field of an instance that its caller shares with it
  · have hscan : Token.scan "b.x=b throw \"\"" = .ok [(.ident "b", ⟨0, 1⟩), (.sign .dot, ⟨1, 2⟩),
        (.ident "x", ⟨2, 3⟩), (.sign .eq, ⟨3, 4⟩), (.ident "b", ⟨4, 5⟩),
        (.keyword .raise, ⟨6, 11⟩), (.str "", ⟨12, 14⟩)] := by
      decide +kernel
    have hparse : Program.ofSource "b.x=b throw \"\""
        = .ok [.setField "b" "x" (.var "b"), .raise (.str "")] := by
      rw [ofSource_of_scan hscan]
      cbv
    have hfails := importSource_of_ok hparse (eval 5) OneCell.machine
    refine ⟨OneCell.reachable, rfl, _, hfails, fun hsame => ?_⟩
    have hfields : some (Value.object ⟨0⟩, Access.exposed) = some (.str "", .exposed) := hsame
    cases hfields
  -- the script calls the method that is running, which writes into its locals
  · have hscan : Token.scan "o.x=o o.f(o) throw \"\"" = .ok [(.ident "o", ⟨0, 1⟩),
        (.sign .dot, ⟨1, 2⟩), (.ident "x", ⟨2, 3⟩), (.sign .eq, ⟨3, 4⟩), (.ident "o", ⟨4, 5⟩),
        (.ident "o", ⟨6, 7⟩), (.sign .dot, ⟨7, 8⟩), (.ident "f", ⟨8, 9⟩),
        (.sign .lParen, ⟨9, 10⟩), (.ident "o", ⟨10, 11⟩), (.sign .rParen, ⟨11, 12⟩),
        (.keyword .raise, ⟨13, 18⟩), (.str "", ⟨19, 21⟩)] := by
      decide +kernel
    have hparse : Program.ofSource "o.x=o o.f(o) throw \"\"" = .ok [.setField "o" "x" (.var "o"),
        .method (.named "o") ⟨"f", [.var "o"]⟩ [], .raise (.str "")] := by
      rw [ofSource_of_scan hscan]
      cbv
    have hfails := importSource_of_ok hparse (eval 5) OneCell.inside
    refine ⟨OneCell.reachable_inside, _, hfails, fun hsame => ?_⟩
    have hvalues : some (Value.object ⟨0⟩) = some (.str "") := hsame
    cases hvalues

/-! ## Imports that end well -/

/-- A table of the importer, after what the script's copy has on top has been added to it. -/
theorem Pool.Keeps.get_mergeCell {α : Type} [Inhabited α] {P : Handle → Prop} {p q : Pool α}
    (k : p.Keeps P q) {into source : Handle} (hrange : into.index < p.size) (hP : P into)
    (hsource : source = p.next) (combine : α → α → α) :
    (Context.mergeCell combine into source q).get into = combine (p.get into) (q.get source) := by
  have hne : into ≠ source := by
    rintro rfl
    rw [hsource] at hrange
    exact Nat.lt_irrefl _ hrange
  unfold Context.mergeCell
  rw [if_neg hne, Pool.get_modify_self (Nat.lt_of_lt_of_le hrange k.size), k.same hrange hP]

/-- What an import adds to the machine `m`, if its script ends on the machine `sub`. -/
structure ImportAdds (fuel : Nat) (program : Program) (m sub m' : Machine) : Prop where
  /-- Variables of the importer keep their values, and those of the script are added. -/
  scopes : ∀ l x, m'.scopes.get? l x = (m.scopes.get? l x).or (sub.scopes.get? l x)
  /-- What is added is at the level of the import. -/
  level : ∀ {l x}, m'.scopes.Binds l x → m.scopes.Binds l x ∨ l = m.context.level
  functions : ∀ s, m'.functions.get? s = (m.functions.get? s).or (sub.functions.get? s)
  boxes : ∀ name, m'.boxes.get? name = (m.boxes.get? name).or (sub.boxes.get? name)
  extensions : ∀ name,
    m'.extensions.get? name = (m.extensions.get? name).or (sub.extensions.get? name)
  context : m'.context = m.context
  depth : m'.depth = m.depth
  /-- Signals that the script had more than the importer are added. -/
  returns : m'.returns = m.returns ++ sub.returns.drop m.returns.length
  /-- There are none unless a clause of a `for` returns, in the script or before it. -/
  quiet : m.Quiet → SilentRun fuel (runProgram · program) m.forked → m'.returns = m.returns
  /-- Nothing that the importer sees is hidden. -/
  seen : m.context.inClause = false → ∀ {name v},
    m.scopes.lookup name m.context.level = some v →
    m'.scopes.lookup name m'.context.level = some v

section Names

variable {m sub : Machine}

theorem Machine.Shaped.script_scopes (moves : sightContract.Moves m.forked sub) :
    sub.scopes = sub.heap.scopes.get m.heap.scopes.next :=
  congrArg sub.heap.scopes.get (congrArg Context.scopes moves.restored.context)

/-- A name on the copy of a script is one of the importer's, or at the level of the import. -/
theorem Machine.Shaped.binds_of_script (hm : m.Shaped)
    (moves : sightContract.Moves m.forked sub) {l : Nat} {x : String} (hx : sub.scopes.Binds l x) :
    m.scopes.Binds l x ∨ l = m.context.level := by
  obtain ⟨⟨⟨-, -, o⟩, -, -⟩, -, -⟩ := moves.rel
  rw [script_scopes moves] at hx
  exact hm.lasting.copied o hx

/-- Outside of clauses a script does not bind anew what its importer sees. -/
theorem Machine.Shaped.unhidden_by_script (hm : m.Shaped)
    (moves : sightContract.Moves m.forked sub) (hclause : m.context.inClause = false) {l k : Nat}
    {x : String} (hl : l ≤ m.context.level) (hseen : m.scopes.Binds l x)
    (hx : sub.scopes.Binds k x) : m.scopes.Binds k x := by
  rcases hm.binds_of_script moves hx with hknown | rfl
  · exact hknown
  have hcopy : m.forked.scopes = m.scopes := Pool.get_push_next _ _
  have hunhidden := moves.rel.2.2 hclause (l := l) (x := x) hl
  rw [hcopy] at hunhidden
  rw [script_scopes moves] at hx
  exact hunhidden hseen hx

end Names

/-- **An import only adds.** Take any machine that comes about in the course of a session, with code
that does not work on the store of a function. If an import on it ends well, so has the script, on
copies of the tables. What is bound, declared or visible for the importer stays so, and all that the
script has on top at its end is added; context and depth are as they were, and so are the signals
unless some clause has returned. -/
theorem import_only_adds {m : Machine} (h : Attained m) (houter : m.Outer) {fuel : Nat}
    {source : String} {m' : Machine} (hends : importSource (eval fuel) source m = ⟨.ok (), m'⟩) :
    ∃ program sub, Program.ofSource source = .ok program ∧
      runProgram (eval fuel) program m.forked = ⟨.ok (), sub⟩ ∧
      ImportAdds fuel program m sub m' := by
  have hm := h.orderly
  obtain ⟨program, sub, hparse, hrun, rfl⟩ := importSource_eq_ok hends
  refine ⟨program, sub, hparse, hrun, ?_⟩
  -- the tables of the caller are pinned while the script runs, so that the merge finds them as they
  -- were
  have hsub : (runProgram (eval fuel) program m.forked).machine = sub := by rw [hrun]
  have hsight := sight_shallow.moves_runProgram hm.shaped.forked fuel fun n (_ : n ∈ program) =>
    anyNode n
  have hdeclarations := Machine.Pinned.ofScript ((throughout_true fuel (runProgram · program)
    m.forked).mono fun n t _ => Pins.spares_declarations m n t)
  have hworkplace := Machine.Pinned.ofScript ((throughout_true fuel (runProgram · program)
    m.forked).mono fun n t _ => hm.spares_workplace (houter.not_reenters n t))
  rw [hsub] at hsight hdeclarations hworkplace
  have hcontext := hsight.restored.context
  have hrange := hm.shaped.lasting.active.inRange
  have hscopes : (m.merged sub).scopes = m.scopes.absorb sub.scopes :=
    hworkplace.scopes.get_mergeCell hrange rfl (congrArg Context.scopes hcontext) _
  have hreturns : (m.merged sub).returns = m.returns ++ sub.returns.drop m.returns.length :=
    hworkplace.returns.get_mergeCell hm.stack rfl (congrArg Context.returns hcontext) _
  have hmerged : (m.merged sub).context = m.context := by
    show ({ m.context with
      level := sub.context.level, inClause := sub.context.inClause } : Context) = m.context
    rw [hcontext]
    rfl
  constructor
  case scopes =>
    intro l x
    rw [hscopes, Scopes.get?_absorb]
  -- a new name of the script stands at the level of the import
  case level =>
    intro l x hx
    rw [hscopes] at hx
    exact (Scopes.binds_absorb.1 hx).elim .inl (hm.shaped.binds_of_script hsight)
  case functions =>
    intro s
    have htable : (m.merged sub).functions = m.functions.union sub.functions :=
      hdeclarations.functions.get_mergeCell hm.shaped.functions trivial
        (congrArg Context.functions hcontext) _
    rw [htable, Dict.get?_union]
  case boxes =>
    intro name
    have htable : (m.merged sub).boxes = m.boxes.union sub.boxes :=
      hdeclarations.boxes.get_mergeCell hm.shaped.boxes trivial
        (congrArg Context.boxes hcontext) _
    rw [htable, Dict.get?_union]
  case extensions =>
    intro name
    have htable : (m.merged sub).extensions = m.extensions.union sub.extensions :=
      hdeclarations.extensions.get_mergeCell h.extensions trivial
        (congrArg Context.extensions hcontext) _
    rw [htable, Dict.get?_union]
  case context => exact hmerged
  case depth => rfl
  case returns => exact hreturns
  case quiet =>
    intro hquiet hsilent
    have hkept := Follows.program fun n hn =>
      (below_eval fuel).run (isStatement_of_ofSource hparse n hn)
    have moves := (hkept m.forked (signal_nested.fork ⟨h.formed, hquiet⟩)).moves
    rw [show runProgram (evalSilent fuel) program m.forked
      = runProgram (eval fuel) program m.forked from hsilent _, hrun] at moves
    rw [hreturns, moves.inv.2.active, List.drop_nil, List.append_nil]
  -- a name that the caller sees is not hidden by one of the script
  case seen =>
    intro hclause name v hv
    obtain ⟨l, hl, hfound, -⟩ := Scopes.lookup_eq_some_iff.1 hv
    have hseen : m.scopes.Binds l name := Option.isSome_iff_exists.2 ⟨v, hfound⟩
    rw [hmerged, hscopes]
    exact Scopes.lookup_absorb hv fun k _ hx =>
      hm.shaped.unhidden_by_script hsight hclause hl hseen hx

/-- A script that gives another name to the cell. -/
theorem import_only_adds_cell :
    OneCell.machine.Outer ∧ ∃ m', importSource (eval 5) "y=b" OneCell.machine = ⟨.ok (), m'⟩ ∧
      m'.scopes.get? 0 "b" = OneCell.machine.scopes.get? 0 "b" ∧
      m'.context = OneCell.machine.context := by
  have hscan : Token.scan "y=b"
      = .ok [(.ident "y", ⟨0, 1⟩), (.sign .eq, ⟨1, 2⟩), (.ident "b", ⟨2, 3⟩)] := by
    decide +kernel
  have hparse : Program.ofSource "y=b" = .ok [.assign "y" (.var "b")] := by
    rw [ofSource_of_scan hscan]
    cbv
  have hends := importSource_of_ok hparse (eval 5) OneCell.machine
  have houter := (Reachable.orderly OneCell.reachable).outer rfl
  obtain ⟨program, sub, -, -, hadds⟩ :=
    import_only_adds (.reachable OneCell.reachable) houter hends
  exact ⟨houter, _, hends, by rw [hadds.scopes]; rfl, hadds.context⟩

end BoxScript
