import BoxScript.Proofs.Shapes

/-!
# Names in sight

Code sees the names that are bound at its level or below in its store, and of several it sees the
one at the highest level. A name that code sees is not bound anew at the level of the code, since an
assignment goes to where the name is found (`Unhidden`); only parameters and the clauses of a `for`
bind names whatever there is. So what runs at the very level of some code hides none of the names
that the code sees.

That is no matter of what blocks, functions and methods do, which run at higher levels or on other
stores. `Contract.Shallow` is the form of such statements: the steps that code takes at its own
level are to be allowed by one contract, and of all that runs deeper it is enough that it keeps
another one, which is known already.
-/

namespace BoxScript

/-! ## Code at its own level -/

namespace Contract

/-- The steps that code takes at its own level are allowed by `D`, also if it is only known of what
runs deeper that it keeps `C`. -/
structure Shallow (D C : Contract) (N S : Node → Prop) : Prop
    extends Steps D N (Routine.BodyIn S), Forks D where
  everywhere : (∀ node m, D.scope node m) ∧ ∀ h signature, D.calls h signature
  deeper : C.Frames N S
  inv : ∀ {m}, D.inv m → C.inv m
  push : ∀ {m} (v : Value), D.inv m → D.Allows m (m.updateReturns (· ++ [v]))
  dropSignal : ∀ {m}, D.inv m → D.Allows m m.dropSignal
  /-- Calls of functions count as calls, and blocks do not. -/
  scopeOut : ∀ {m m' depth depth'} (c : Bool), D.inv m →
    C.Moves (({ m with depth := depth }.atLevel (m.context.level + 1)).withClause c) m' →
    D.Allows m { (m'.closeTo m.context.level).withClause m.context.inClause with depth := depth' }
  methodOut : ∀ {m left h signature routine access locals}, D.inv m →
    (m.instanceAt h).method? signature = some (routine, access, locals) →
    C.Moves (m.entered h signature locals) left → D.Allows m (m.returned h signature locals left)

namespace Shallow

variable {D C : Contract} {N S : Node → Prop} {ev ev' : Evaluator}

/-- An evaluation ends like itself. -/
theorem kept_of_moves {α : Type} {x : Exec α} (h : ∀ m, D.inv m → D.Moves m (x m).machine) :
    D.Kept x x := fun m hm => ⟨.inr rfl, h m hm⟩

theorem kept_block (F : D.Shallow C N S) (hdeep : ∀ n, S n → C.Kept (ev' n) (ev n)) {node : Node}
    (hnode : S node) (hblock : node.isBlock = true) (fuel : Nat) :
    D.Kept (evalNode ev fuel node) (evalNode ev fuel node) := by
  rw [evalNode_of_isBlock hblock]
  refine Kept.bind F.toLawful (kept_of_moves fun m hm => ?_) fun _ => kept_pure F.toLawful _
  -- the body of a block runs one level up, where only the known contract is needed
  have hbody := Tracked.kept_blockBody F.deeper.toGround.plain (fun n hn => (hdeep n hn).plain)
    hnode fuel
  have moves : C.Moves ((m.atLevel (m.context.level + 1)).withClause m.context.inClause)
      (blockBody ev fuel node (m.atLevel (m.context.level + 1))).machine :=
    (hbody _ (F.deeper.scopeIn m.context.inClause (F.inv hm))).moves
  show D.Moves m ((blockBody ev fuel node (m.atLevel (m.context.level + 1))).machine.closeTo
    m.context.level)
  generalize (blockBody ev fuel node (m.atLevel (m.context.level + 1))).machine = m' at moves
  have hleave : D.Allows m { (m'.closeTo m.context.level).withClause m.context.inClause with
      depth := m.depth } := F.scopeOut m.context.inClause hm moves
  have hcontext : (m'.closeTo m.context.level).context = m.context := by
    show ({ m'.context with level := m.context.level } : Context) = m.context
    rw [moves.restored.context]
    rfl
  have hdepth : m'.depth = m.depth := moves.restored.depth
  have hleft : { (m'.closeTo m.context.level).withClause m.context.inClause with depth := m.depth }
      = m'.closeTo m.context.level := by
    rw [← hdepth, ← hcontext]
    rfl
  exact ⟨hleft ▸ hleave, hcontext, hdepth⟩

/-- The body of a function runs one level up, where only the known contract is needed. -/
theorem kept_invoke (F : D.Shallow C N S) (hdeep : ∀ n, S n → C.Kept (ev' n) (ev n))
    {routine : Routine} (hroutine : routine.BodyIn S) (args : List Value) :
    D.Kept (invoke ev routine args) (invoke ev routine args) := by
  refine kept_of_moves fun m hm => ?_
  by_cases hdepth : m.depth < maxCallDepth
  · have hbody := kept_runBody F.deeper.toGround (fun n hn => hdeep n (hroutine n hn)) args
    have moves : C.Moves m.inCall (runBody ev routine args m.inCall).machine :=
      (hbody _ (F.deeper.scopeIn false (F.deeper.callIn (F.inv hm) hdepth))).moves
    rw [invoke_of_lt hdepth, Exec.closing_apply]
    generalize (runBody ev routine args m.inCall).machine = left at moves
    refine ⟨F.scopeOut false hm moves, ?_, ?_⟩
    · show ({ left.context with
        level := m.context.level, inClause := m.context.inClause } : Context) = m.context
      rw [moves.restored.context]
      rfl
    · show left.depth - 1 = m.depth
      rw [moves.restored.depth]
      rfl
  · have hfails : invoke ev routine args m = ⟨.error .stackOverflow, m⟩ :=
      if_pos (Nat.not_lt.1 hdepth)
    rw [hfails]
    exact Moves.refl F.toLawful hm

/-- The body of a method runs in another context, where only the known contract is needed. -/
theorem kept_runMethod (F : D.Shallow C N S) (hdeep : ∀ n, S n → C.Kept (ev' n) (ev n))
    (h : Handle) {routine : Routine} (hroutine : routine.BodyIn S) (args : List Value) :
    D.Kept (runMethod ev h routine args) (runMethod ev h routine args) := by
  refine kept_of_moves fun m hm => ?_
  rcases runMethod_cases h routine args m with
    ⟨e, hfails⟩ | ⟨r, access, locals, hfound, hdepth, hruns⟩
  · rw [hfails]
    exact Moves.refl F.toLawful hm
  · have hbody := kept_runBody F.deeper.toGround (fun n hn => hdeep n (hroutine n hn)) args
    have moves : C.Moves (m.entered h routine.signature locals)
        (runBody ev routine args (m.entered h routine.signature locals)).machine :=
      (hbody _ (F.deeper.methodIn (F.deeper.callIn (F.inv hm) hdepth) hfound)).moves
    rw [hruns, Exec.closing_apply]
    generalize (runBody ev routine args (m.entered h routine.signature locals)).machine = left
      at moves
    refine ⟨F.methodOut hm hfound moves, rfl, ?_⟩
    show left.depth - 1 = m.depth
    rw [moves.restored.depth]
    rfl

theorem given (F : D.Shallow C N S) (hdeep : ∀ n, S n → C.Kept (ev' n) (ev n))
    (h : ∀ n, S n → D.Kept (ev n) (ev n)) : D.Given N (Routine.BodyIn S) ev ev where
  toCallable := callable_of_all F.everywhere.2
  ask hn := h _ (F.deeper.fragment.expression hn)
  invoke args hr := F.kept_invoke hdeep hr args
  method o _ args _ hr := F.kept_runMethod hdeep o hr args
  importing hm hsource := kept_importSource F.toForks _ fun _ hparse =>
    Tracked.kept_runProgram F.toSteps.plain F.dropSignal fun n hn =>
      h n (F.deeper.scripts (F.inv hm) hsource hparse n hn)

/-- A node is evaluated by steps at its own level and by parts that run deeper. -/
theorem kept_evalNode (F : D.Shallow C N S) (hdeep : ∀ n, S n → C.Kept (ev' n) (ev n))
    (h : ∀ n, S n → D.Kept (ev n) (ev n)) {node : Node} (hnode : S node) (fuel : Nat) :
    D.Kept (evalNode ev fuel node) (evalNode ev fuel node) := by
  have hparts := F.deeper.fragment.parts hnode
  cases hcontrol : node.isControl with
  | false =>
    intro m hm
    exact meets_evalNode F.toSteps (F.given hdeep h) hparts hcontrol fuel hm
      (F.everywhere.1 node m)
  | true =>
    cases hblock : node.isBlock with
    | true => exact F.kept_block hdeep hnode hblock fuel
    | false =>
      have law := F.toLawful
      have hpush : ∀ v,
          D.Kept (Exec.update (·.updateReturns (· ++ [v])) >>= fun _ => pure Value.void)
            (Exec.update (·.updateReturns (· ++ [v])) >>= fun _ => pure Value.void) :=
        fun v => (kept_update fun m hm => ⟨F.push v hm, ⟨rfl, rfl⟩⟩).bind law
          fun _ => kept_pure law _
      cases node with
      | giveBack value =>
        cases value with
        | none => exact hpush .void
        | some value => exact (h _ (F.deeper.fragment.expression hparts)).bind law hpush
      | ifElse | whileDo | forDo => cases hblock
      | _ => cases hcontrol

/-- **Evaluations keep a contract that allows the steps at the level of the code.** -/
theorem kept_eval (F : D.Shallow C N S) (fuel : Nat) {node : Node} (hnode : S node) :
    D.Kept (eval fuel node) (eval fuel node) := by
  induction fuel generalizing node with
  | zero => exact kept_of_unchanged F.toLawful fun _ => rfl
  | succ fuel ih =>
    exact F.kept_evalNode (fun n hn => F.deeper.kept_eval (P := fun _ _ => True)
      (fun _ _ _ _ => trivial) (fun _ => eval 0) fuel hn) (fun n hn => ih hn) hnode fuel

/-- The statements of a program run at its own level, one after the other. -/
theorem moves_runProgram (F : D.Shallow C N S) {m : Machine} (hm : D.inv m) (fuel : Nat)
    {program : Program} (hprogram : ∀ n ∈ program, S n) :
    D.Moves m (runProgram (eval fuel) program m).machine :=
  (Tracked.kept_runProgram F.toSteps.plain F.dropSignal
    (fun n hn => F.kept_eval fuel (hprogram n hn)) m hm).moves

end Shallow
end Contract

/-! ## What is bound at the level of the code -/

/-- No name that the code sees is bound anew at the level of the code. -/
def Machine.Unhidden (m m' : Machine) : Prop :=
  ∀ {l x}, l ≤ m.context.level → m.scopes.Binds l x →
    m'.holders.Binds m.context.scopes m.context.level x → m.scopes.Binds m.context.level x

/-- Code at its own level hides no name that it sees, unless it is a clause of a `for`. -/
def sightContract : Contract where
  lax := False
  inv := Machine.Shaped
  rel m m' := shapeContract.rel m m' ∧ m'.context.inClause = m.context.inClause ∧
    (m.context.inClause = false → m.Unhidden m')

namespace Machine.Shaped

variable {m m' : Machine}

/-- A step that binds nothing at the level of the code. -/
theorem sees (hshape : shapeContract.Allows m m')
    (hclause : m'.context.inClause = m.context.inClause)
    (hnone : ∀ {x}, m'.holders.Binds m.context.scopes m.context.level x →
      m.scopes.Binds m.context.level x) : sightContract.Allows m m' :=
  ⟨hshape.inv, hshape.rel, hclause, fun _ _ _ _ _ hx => hnone hx⟩

theorem of_sight (moves : sightContract.Moves m m') : shapeContract.Moves m m' :=
  ⟨⟨moves.inv, moves.rel.1⟩, moves.restored⟩

/-- How many calls are running is no matter. -/
theorem redepth (hm : m.Shaped) (depth : Nat) : Machine.Shaped { m with depth := depth } :=
  { hm with lasting := { hm.lasting with } }

/-- What runs on another store or at another level binds nothing at the level of the code. -/
theorem not_new (hm : m.Shaped) {a : Handle} {k : Nat} {e : Holders}
    (o : m.holders.Outlives a k e) (hother : ¬(m.context.scopes = a ∧ m.context.level = k))
    {x : String} (hx : e.Binds m.context.scopes m.context.level x) :
    m.scopes.Binds m.context.level x := by
  have hrange := hm.lasting.active.inRange
  rcases o.makes hrange hx with hx | h | ⟨hzero, hfield⟩
  · exact hx
  · exact absurd h hother
  · rw [hzero]
    exact hm.lasting.active.fields (o.wasField hfield hrange)

/-- A new store is not the one in use. -/
theorem ne_next (hm : m.Shaped) : m.context.scopes ≠ m.heap.scopes.next := by
  intro heq
  have hrange := hm.lasting.active.inRange
  rw [heq] at hrange
  exact Nat.lt_irrefl _ hrange

/-- A script works on a new store. -/
theorem not_new_of_script (hm : m.Shaped) {k : Nat} {e : Holders}
    (o : m.forked.holders.Outlives m.heap.scopes.next k e) {x : String}
    (hx : e.Binds m.context.scopes m.context.level x) : m.scopes.Binds m.context.level x :=
  hm.not_new ((outlives_forked m.heap.scopes.next k).next o) (fun h => hm.ne_next h.1) hx

/-- What is left of a store after closing it was there before. -/
theorem binds_of_closed {t s : Handle} {level l : Nat} {x : String}
    (h : (m.updateScopesAt t (·.close level)).holders.Binds s l x) : m.holders.Binds s l x := by
  change ((m.heap.scopes.modify t _).get s).Binds l x at h
  rcases Pool.get_modify_cases m.heap.scopes t (·.close level) s with ⟨-, -, hget⟩ | hget <;>
    rw [hget] at h
  · exact (Scopes.binds_close.1 h).2
  · exact h

/-- An assignment goes to where the name is found. -/
theorem unhidden_assign (hclause : m.context.inClause = false) (name : String) (v : Value) :
    m.Unhidden (m.updateScopes (·.set name v m.context.level m.context.inClause)) := by
  intro l x hl hseen hx
  change ((m.heap.scopes.modify m.context.scopes _).get m.context.scopes).Binds _ x at hx
  have hrange : m.context.scopes.index < m.heap.scopes.size :=
    Holders.binds_lt (e := m.holders) hseen
  rw [Pool.get_modify_self hrange, hclause] at hx
  rcases Scopes.binds_bind.1 hx with ⟨hlevel, rfl⟩ | hx
  · obtain ⟨k, hfound⟩ := hseen.found hl
    rw [show m.heap.scopes.get m.context.scopes = m.scopes from rfl, hfound] at hlevel
    rw [hlevel]
    exact (Scopes.binds_of_levelOf? hfound).2
  · exact hx

/-- A script runs at the level of the code on a copy, where it hides nothing either, and what it has
bound there is added to the store. -/
theorem unhidden_merged (hm : m.Shaped) {sub : Machine} (hclause : m.context.inClause = false)
    (moves : sightContract.Moves m.forked sub) : m.Unhidden (m.merged sub) := by
  obtain ⟨⟨⟨-, -, o⟩, -, -⟩, -, hunhidden⟩ := moves.rel
  have hcopy : m.forked.scopes = m.scopes := Pool.get_push_next _ _
  have hsub : sub.context.scopes = m.heap.scopes.next := by rw [moves.restored.context]; rfl
  intro l x hl hseen hx
  change ((Context.mergeCell Scopes.absorb _ _ sub.heap.scopes).get m.context.scopes).Binds _ x
    at hx
  have hsize : m.context.scopes.index < sub.heap.scopes.size :=
    Nat.lt_of_lt_of_le (Nat.lt_of_lt_of_le hm.lasting.active.inRange
      (outlives_forked m.heap.scopes.next 0).stores) o.stores
  rw [Context.mergeCell, hsub, if_neg hm.ne_next, Pool.get_modify_self hsize] at hx
  rcases Scopes.binds_absorb.1 hx with hx | hx
  · exact hm.not_new_of_script o hx
  · have hbefore := hunhidden hclause (x := x) (l := l) hl (by rw [hcopy]; exact hseen) hx
    rwa [hcopy] at hbefore

end Machine.Shaped

/-- **No code hides at its own level what it sees.** -/
theorem sight_shallow : sightContract.Shallow shapeContract AnyNode AnyNode where
  everywhere := ⟨fun _ _ => trivial, fun _ _ => trivial⟩
  deeper := shape_frames
  inv hm := hm
  code {m} _ := m.codeIn_any
  refl hm := ⟨shape_frames.refl hm, rfl, fun _ _ _ _ _ hx => hx⟩
  trans := by
    rintro a b c ⟨hshape, hclause, hunhidden⟩ ⟨hshape', hclause', hunhidden'⟩
    -- what is bound after the second step was bound after the first one, as the name was still in
    -- sight then
    refine ⟨shape_frames.trans hshape hshape', hclause'.trans hclause, ?_⟩
    intro hfalse l x hl hseen hx
    obtain ⟨hscopes, hlevel, o⟩ := hshape.1
    have hb : b.scopes = b.heap.scopes.get a.context.scopes := by rw [← hscopes]; rfl
    refine hunhidden hfalse hl hseen ?_
    have hseen' := hunhidden' (hclause.trans hfalse) (l := l) (x := x) (by rwa [hlevel]) ?_ ?_
    · rw [hlevel, hb] at hseen'
      exact hseen'
    · rw [hb]
      exact o.keeps hl hseen
    · rwa [hscopes, hlevel]
  -- only assignments, the ways out and scripts can bind anything at the level of the code
  console hc hm := Machine.Shaped.sees (shape_frames.console hc hm) rfl id
  assign value v _ moves :=
    have hshape := shape_frames.assign value v trivial (Machine.Shaped.of_sight moves)
    ⟨hshape.inv, hshape.rel, rfl, fun hclause => Machine.Shaped.unhidden_assign hclause _ v⟩
  declare _ hr hm := Machine.Shaped.sees (shape_frames.declare trivial hr hm) rfl id
  register _ accepted hd hm :=
    Machine.Shaped.sees (shape_frames.register trivial accepted hd hm) rfl id
  extend name _ hr hm := Machine.Shaped.sees (shape_frames.extend name hr hm) rfl id
  allocate := by
    intro m m' name d fields hm hknown hd hfields hm'
    refine Machine.Shaped.sees (shape_frames.allocate hm hknown hd hfields hm') rfl fun hx => ?_
    obtain ⟨methods, heap, grown, -, hmade⟩ := allocate_cases d fields m'
    rw [hmade] at hx
    change (heap.scopes.get _).Binds _ _ at hx
    rwa [grown.scopes] at hx
  setField h field v hm := Machine.Shaped.sees (shape_frames.setField h field v hm) rfl id
  linkIn h hm := shape_frames.linkIn h hm
  linkOut h hm moves :=
    have hshape := shape_frames.linkOut h hm (Machine.Shaped.of_sight moves)
    ⟨hshape.inv, hshape.rel, moves.rel.2.1, moves.rel.2.2⟩
  linkRefused hm := Machine.Shaped.sees (shape_frames.linkRefused hm) rfl id
  push v hm := Machine.Shaped.sees (shape_frames.push v hm) rfl id
  dropSignal hm := Machine.Shaped.sees (shape_frames.dropSignal hm) rfl id
  scopeOut := by
    intro m m' depth depth' c hm moves
    have hallows := shape_frames.scopeOut c (hm.redepth depth) moves
    have hleft : shapeContract.Allows m { (m'.closeTo m.context.level).withClause
        m.context.inClause with depth := depth' } := ⟨hallows.inv.redepth _, hallows.rel⟩
    refine Machine.Shaped.sees hleft rfl fun hx => ?_
    refine hm.not_new moves.rel.1.2.2 ?_ (Machine.Shaped.binds_of_closed hx)
    exact fun h => absurd h.2 (Nat.ne_of_lt (Nat.lt_succ_self _))
  methodOut := by
    intro m left h signature routine access locals hm hfound moves
    have hallows := shape_frames.methodOut (hm.redepth (m.depth + 1)) hfound moves
    have hleft : shapeContract.Allows m (m.returned h signature locals left) :=
      ⟨hallows.inv.redepth _, hallows.rel⟩
    refine Machine.Shaped.sees hleft rfl fun hx => ?_
    have hentered := outlives_enterMethod (m := m.deeper) hfound
      (max m.context.level locals.level + 1) locals.scopes (max m.context.level locals.level + 1)
    refine hm.not_new (hentered.next moves.rel.1.2.2) ?_ (Machine.Shaped.binds_of_closed hx)
    -- the method runs above the level of its caller
    rintro ⟨-, hlevel⟩
    have hle := Nat.le_max_left m.context.level locals.level
    omega
  fork hm := shape_frames.fork hm
  merge hm moves :=
    have hshape := shape_frames.merge hm (Machine.Shaped.of_sight moves)
    ⟨hshape.inv, hshape.rel, (congrArg Context.inClause moves.restored.context :),
      fun hclause => hm.unhidden_merged hclause moves⟩
  discard := by
    intro m sub chained hchained hm moves
    obtain ⟨-, -, o⟩ := moves.rel.1.1
    have hshape := shape_frames.discard hchained hm (Machine.Shaped.of_sight moves)
    exact Machine.Shaped.sees hshape rfl (hm.not_new_of_script o)

end BoxScript
