import BoxScript.Proofs.Activations
import BoxScript.Proofs.ForClause

/-!
# Shadowed variables

A parameter, and the variable of a `for`, may have the name of a variable that is bound further out.
As long as the inner one is bound, code that runs at its level or above finds it before any outer
one, and so assigns to the outer ones never. What keeps the inner variable bound is that scopes are
only closed down to the level of the code; what keeps the outer ones as they are is that nothing but
an assignment changes a variable: methods work on stores of their own, and what a script adds to
the store of its importer is not at the levels below.

`Scopes.Shadows` says this of a store, and `Machine.Shaded` of a machine. The store must not be that
of a function of an instance, since such a store gets the fields anew as global variables when the
function is called again.
-/

namespace BoxScript

/-! ## Stores -/

namespace Scopes

variable {s : Scopes} {k level : Nat} {x : String} {below : Nat → Option Value}

/-- A name is bound at a level, and at the levels below it has the values that `below` says. -/
structure Shadows (s : Scopes) (k : Nat) (x : String) (below : Nat → Option Value) : Prop where
  bound : s.Binds k x
  below : ∀ {j}, j < k → s.get? j x = below j

/-- Among the inner scopes, a name is found no further out than where it is bound. -/
theorem le_levelInner? {l : Nat} {inner : List (Nat × Variables)} (hdesc : Descending inner)
    (hbound : ((innerAt inner k).get? x).isSome = true) (hk : k ≤ level)
    (h : levelInner? x level inner = some l) : k ≤ l := by
  -- the scopes are in order, the innermost first, so all before the one at level `k` are at higher
  -- levels
  induction inner with
  | nil => cases h
  | cons e rest ih =>
    obtain ⟨m, vars⟩ := e
    have hfirst : k ≤ m := by
      by_contra hlt
      rw [innerAt_of_lt] at hbound
      · cases hbound
      · intro e he
        rcases List.mem_cons.1 he with rfl | he
        · exact Nat.not_le.1 hlt
        · exact Nat.lt_trans (Descending.head hdesc e he) (Nat.not_le.1 hlt)
    unfold levelInner? at h
    split at h
    · cases h
      exact hfirst
    · next hnot =>
      refine ih (Descending.tail hdesc) ?_ h
      have hne : m ≠ k := by
        rintro rfl
        rw [innerAt_cons_self] at hbound
        exact hnot (by rw [Bool.and_eq_true, decide_eq_true_eq]; exact ⟨hk, hbound⟩)
      rwa [innerAt_cons_of_ne hne] at hbound

/-- Code finds a name at the highest level that binds it, up to its own. -/
theorem le_levelOf? (hbound : s.Binds k x) (hk : k ≤ level) :
    ∃ l, k ≤ l ∧ s.levelOf? x level = some l := by
  obtain ⟨l, hl⟩ := hbound.found hk
  refine ⟨l, ?_, hl⟩
  rcases Nat.eq_zero_or_pos k with rfl | hpos
  · exact Nat.zero_le l
  unfold Binds at hbound
  rw [get?_inner s hpos] at hbound
  obtain ⟨l', hl'⟩ := Option.isSome_iff_exists.1 (isSome_levelInner? hk hbound)
  have heq : s.levelOf? x level = some l' := by
    unfold levelOf?
    rw [hl']
  cases hl.symm.trans heq
  exact le_levelInner? s.descending hbound hk hl'

namespace Shadows

/-- Binding another name, or this one no further out, leaves the shadow. -/
theorem bind (h : s.Shadows k x below) {l : Nat} {name : String}
    (hl : name = x → k ≤ l) (v : Value) : (s.bind l name v).Shadows k x below where
  bound := binds_bind.2 (.inr h.bound)
  below {j} hj := by
    rw [get?_bind, if_neg, h.below hj]
    rintro ⟨rfl, rfl⟩
    exact absurd (hl rfl) (Nat.not_le.2 hj)

/-- An assignment changes no shadowed variable. -/
theorem set (h : s.Shadows k x below) (hk : k ≤ level) (name : String) (v : Value)
    (asParam : Bool) : (s.set name v level asParam).Shadows k x below := by
  unfold Scopes.set
  split
  · exact h.bind (fun _ => hk) v
  · refine h.bind (fun hname => ?_) v
    subst hname
    obtain ⟨l, hl, hfound⟩ := le_levelOf? h.bound hk
    rw [hfound]
    exact hl

/-- Parameters are bound at the level of the call, which is not below the shadow. -/
theorem bindParams (h : s.Shadows k x below) (hk : k ≤ level) (params : List String)
    (args : List Value) : (bindParams level params args s).Shadows k x below := by
  induction params generalizing args s with
  | nil => exact h
  | cons param params ih =>
    cases args with
    | nil => exact h
    | cons arg args => exact ih (h.set hk param arg true) args

/-- Scopes are closed down to a level that is not below the shadow. -/
theorem close (h : s.Shadows k x below) (hk : k ≤ level) : (s.close level).Shadows k x below where
  bound := binds_close.2 ⟨hk, h.bound⟩
  below {j} hj := by
    rw [get?_close, if_pos (by omega), h.below hj]

/-- A store that binds the name at no new level below may be absorbed. -/
theorem absorb (h : s.Shadows k x below) {other : Scopes}
    (hother : ∀ {j}, j < k → other.Binds j x → s.Binds j x) :
    (s.absorb other).Shadows k x below where
  bound := binds_absorb.2 (.inl h.bound)
  below {j} hj := by
    rw [get?_absorb, ← h.below hj]
    cases hv : s.get? j x with
    | some v => rfl
    | none =>
      rw [Option.none_or]
      by_contra hsome
      have hbound := hother hj (Option.isSome_iff_ne_none.2 hsome)
      unfold Binds at hbound
      rw [hv] at hbound
      cases hbound

end Shadows

/-- What is bound shadows what is bound below. -/
theorem Binds.shadows (h : s.Binds k x) : s.Shadows k x (s.get? · x) := ⟨h, fun _ => rfl⟩

/-- A parameter that gets an argument is bound. -/
theorem binds_bindParams_of_mem {params : List String} {args : List Value}
    (hlength : args.length = params.length) (hx : x ∈ params) :
    (bindParams level params args s).Binds level x := by
  induction params generalizing args s with
  | nil => cases hx
  | cons param params ih =>
    cases args with
    | nil => cases hlength
    | cons arg args =>
      rcases List.mem_cons.1 hx with rfl | hx
      · exact (binds_bind.2 (.inl ⟨rfl, rfl⟩) :
          (s.set x arg level true).Binds level x).bindParams level params args
      · exact ih (Nat.succ.inj hlength) hx

/-- Parameters change nothing below the level of the body. -/
theorem get?_bindParams {j : Nat} (hj : j < level) (params : List String) (args : List Value) :
    (bindParams level params args s).get? j x = s.get? j x := by
  induction params generalizing args s with
  | nil => rfl
  | cons param params ih =>
    cases args with
    | nil => rfl
    | cons arg args =>
      refine (ih args).trans ?_
      show (s.bind level param arg).get? j x = s.get? j x
      rw [get?_bind, if_neg fun h => by omega]

end Scopes

/-! ## Machines -/

/-- In a store that belongs to no function a name shadows what is bound below, and code on that
store runs at the level of the name or above it. -/
structure Machine.Shaded (g : Handle) (k : Nat) (x : String) (below : Nat → Option Value)
    (m : Machine) : Prop where
  place : placeContract.inv m
  outer : ∀ h, ¬m.holders.Owns h g
  store : (m.heap.scopes.get g).Shadows k x below
  above : m.context.scopes = g → k ≤ m.context.level

/-- A name goes on to shadow what is bound below. -/
def shadeContract (g : Handle) (k : Nat) (x : String) (below : Nat → Option Value) : Contract where
  lax := False
  inv := Machine.Shaded g k x below
  rel := placeContract.rel

section Steps

variable {g : Handle} {k : Nat} {x : String} {below : Nat → Option Value} {m m' : Machine}

namespace Machine.Shaded

theorem placed (moves : (shadeContract g k x below).Moves m m') : placeContract.Moves m m' :=
  ⟨⟨moves.inv.place, moves.rel⟩, moves.restored⟩

theorem inRange (hm : m.Shaded g k x below) : g.index < m.heap.scopes.size :=
  Holders.binds_lt (e := m.holders) hm.store.bound

/-- No step gives the store to a function, so only the store has to be looked at. -/
theorem allows (hm : m.Shaded g k x below) (hplace : placeContract.Allows m m')
    (hstore : (m'.heap.scopes.get g).Shadows k x below) :
    (shadeContract g k x below).Allows m m' where
  inv :=
    { place := hplace.inv
      outer := fun h howns => hm.outer h (hplace.rel.2.2.owned howns hm.inRange)
      store := hstore
      above := by
        rw [hplace.rel.1, hplace.rel.2.1]
        exact hm.above }
  rel := hplace.rel

/-- A step that changes no store. -/
theorem untouched (hm : m.Shaded g k x below) (hplace : placeContract.Allows m m')
    (hscopes : m'.heap.scopes = m.heap.scopes) : (shadeContract g k x below).Allows m m' := by
  refine hm.allows hplace ?_
  rw [hscopes]
  exact hm.store

/-- A change of the store that the code works on. -/
theorem shadows_modify {t : Handle} {f : Scopes → Scopes} {p : Pool Scopes}
    (h : (p.get g).Shadows k x below)
    (hf : t = g → (p.get g).Shadows k x below → (f (p.get g)).Shadows k x below) :
    ((p.modify t f).get g).Shadows k x below := by
  rcases Pool.get_modify_cases p t f g with ⟨heq, -, hget⟩ | hget
  · rw [hget]
    exact hf heq.symm h
  · rw [hget]
    exact h

/-- Code that works on the store works at the level of the shadow or above it. -/
theorem updates (hm : m.Shaded g k x below) {f : Scopes → Scopes}
    (hplace : placeContract.Allows m (m.updateScopes f))
    (hf : ∀ {s : Scopes}, k ≤ m.context.level → s.Shadows k x below → (f s).Shadows k x below) :
    (shadeContract g k x below).Allows m (m.updateScopes f) :=
  hm.allows hplace (shadows_modify hm.store fun hactive => hf (hm.above hactive))

/-- The way out of something that ran one level above the code on its store. -/
theorem closing (hm : m.Shaded g k x below) {left : Machine}
    (hleft : left.Shaded g k x below) (hscopes : left.context.scopes = m.context.scopes)
    (hplace : placeContract.Allows m m')
    (hclosed : m'.heap.scopes = left.heap.scopes.modify left.context.scopes
      (·.close m.context.level)) : (shadeContract g k x below).Allows m m' := by
  refine hm.allows hplace ?_
  rw [hclosed, hscopes]
  exact shadows_modify hleft.store fun hactive h => h.close (hm.above hactive)

/-- The store of a function is another one. -/
theorem locals_ne (hm : m.Shaded g k x below) {h : Handle} {signature : Signature}
    {routine : Routine} {access : Access} {locals : Locals}
    (hfound : (m.instanceAt h).method? signature = some (routine, access, locals)) :
    locals.scopes ≠ g := by
  rintro rfl
  exact hm.outer h ⟨_, Instance.hasLocals_of_method? hfound⟩

theorem forked (hm : m.Shaded g k x below) : m.forked.Shaded g k x below where
  place := place_frames.fork hm.place
  outer h howns := hm.outer h ((outlives_forked m.context.scopes m.context.level).owned howns
    hm.inRange)
  store := by
    show ((m.heap.scopes.push _).get g).Shadows k x below
    rw [Pool.get_push_of_lt hm.inRange]
    exact hm.store
  above := by
    rintro rfl
    exact absurd hm.inRange (Nat.lt_irrefl m.heap.scopes.size)

/-- What a script has bound is added where the importing code works, so not below the shadow. -/
theorem merged (hm : m.Shaded g k x below) (moves : (shadeContract g k x below).Moves m.forked m') :
    (shadeContract g k x below).Allows m (m.merged m') := by
  have hplace := placed moves
  refine hm.allows (place_frames.merge hm.place hplace) ?_
  show ((Context.mergeCell Scopes.absorb m.context.scopes m'.context.scopes m'.heap.scopes).get
    g).Shadows k x below
  unfold Context.mergeCell
  split
  · exact moves.inv.store
  refine shadows_modify moves.inv.store fun hactive h => h.absorb fun hj hbound => ?_
  -- a name on the copy was there before, or it is at the level of the code
  have hcopy : m'.holders.Binds m.heap.scopes.next _ x := hplace.rel.1 ▸ hbound
  rcases Lasting.copied hm.place hplace.rel.2.2 hcopy with hold | hlevel
  · have hkept := (Lasting.imported hplace.rel.2.2).keeps (s := m.context.scopes)
      (Nat.le_trans (Nat.le_of_lt hj) (hm.above hactive)) hold
    rwa [hactive] at hkept
  · have hle := hm.above hactive
    omega

end Machine.Shaded

/-- No step of any code changes a shadowed variable. -/
theorem shade_frames (g : Handle) (k : Nat) (x : String) (below : Nat → Option Value) :
    (shadeContract g k x below).Frames AnyNode AnyNode where
  everywhere := ⟨fun _ _ => trivial, fun _ _ => trivial⟩
  fragment := anyNode_language.toFragment
  scripts {m} _ := anyNode_language.scriptsIn m
  code {m} _ := m.codeIn_any
  refl hm := place_frames.refl hm.place
  trans := place_frames.trans
  -- most steps change no store, and all keep their names in their places
  console hc hm := hm.untouched (place_frames.console hc hm.place) rfl
  declare _ _ hm := hm.untouched (place_frames.declare trivial (fun n _ => anyNode n) hm.place) rfl
  register _ accepted hd hm :=
    hm.untouched (place_frames.register trivial accepted hd hm.place) rfl
  extend name _ he hm := hm.untouched (place_frames.extend name he hm.place) rfl
  linkIn h hm := ⟨place_frames.linkIn h hm.place, hm.outer, hm.store, hm.above⟩
  linkOut h hm moves := hm.allows
    (place_frames.linkOut h hm.place (Machine.Shaded.placed moves)) moves.inv.store
  linkRefused hm := hm.untouched (place_frames.linkRefused hm.place) rfl
  push v hm := hm.untouched (place_frames.push v hm.place) rfl
  dropSignal hm := hm.untouched (place_frames.dropSignal hm.place) rfl
  setField h field v hm := hm.untouched (place_frames.setField h field v hm.place) rfl
  -- an assignment finds the shadowing variable first, or binds where it stands
  assign {_ _ name} value v _ moves := moves.inv.updates
    (place_frames.assign value v trivial (Machine.Shaded.placed moves))
    fun hk h => h.set hk name v _
  bindParams params args hm := hm.updates (place_frames.bindParams params args hm.place)
    fun hk h => h.bindParams hk params args
  allocate := by
    intro _ m _ d fields hbefore hknown hd hfields hm
    have hplace := place_frames.allocate hbefore.place hknown hd hfields hm.place
    obtain ⟨methods, heap, grown, -, hmade⟩ := allocate_cases d fields m
    refine hm.allows hplace ?_
    rw [hmade]
    show (heap.scopes.get g).Shadows k x below
    rw [grown.scopes]
    exact hm.store
  scopeIn c hm := ⟨place_frames.scopeIn c hm.place, hm.outer, hm.store,
    fun hactive => Nat.le_succ_of_le (hm.above hactive)⟩
  scopeOut c hm moves := hm.closing moves.inv moves.rel.1
    (place_frames.scopeOut c hm.place (Machine.Shaded.placed moves)) rfl
  clauseIn hm := ⟨place_frames.clauseIn hm.place, hm.outer, hm.store, hm.above⟩
  clauseOut hm moves := hm.allows
    (place_frames.clauseOut hm.place (Machine.Shaded.placed moves)) moves.inv.store
  callIn hm hlt := ⟨place_frames.callIn hm.place hlt, hm.outer, hm.store, hm.above⟩
  callOut hm hlt moves := hm.allows
    (place_frames.callOut hm.place hlt (Machine.Shaded.placed moves)) moves.inv.store
  methodIn := by
    intro m h signature routine access locals hm hfound
    have hne := hm.locals_ne hfound
    have o := outlives_enterMethod hfound (max m.context.level locals.level + 1)
      m.context.scopes m.context.level
    refine ⟨place_frames.methodIn hm.place hfound,
      fun h' howns => hm.outer h' (o.owned howns hm.inRange), ?_, fun heq => absurd heq hne⟩
    exact Machine.Shaded.shadows_modify hm.store fun heq => absurd heq hne
  methodOut hm hfound moves := hm.allows
    (place_frames.methodOut hm.place hfound (Machine.Shaded.placed moves))
    (Machine.Shaded.shadows_modify moves.inv.store fun heq => absurd heq (hm.locals_ne hfound))
  fork hm := hm.forked
  merge hm moves := hm.merged moves
  discard hchained hm moves := hm.allows
    (place_frames.discard hchained hm.place (Machine.Shaded.placed moves)) moves.inv.store

end Steps

/-! ## Protection -/

/-- Variables of a name at the levels below `k`, in the store that the code of `m` works on, are on
the machine `there` what they are on `m`. -/
def Machine.Protects (m : Machine) (k : Nat) (x : String) (there : Machine) : Prop :=
  ∀ j < k, (there.heap.scopes.get m.context.scopes).get? j x = m.scopes.get? j x

/-- What code on the machine `m` leaves alone. -/
structure ShadowProtection (fuel : Nat) (m : Machine) : Prop where
  /-- No evaluation changes what a bound name hides. -/
  node : ∀ {k x} (node : Node), k ≤ m.context.level → m.scopes.Binds k x →
    m.Protects k x (eval fuel node m).machine ∧
      Throughout (fun _ there => m.Protects k x there) fuel (· node) m
  /-- No call changes a variable that has the name of a parameter. -/
  call : ∀ {routine : Routine} {x} (args : List Value), x ∈ routine.params →
    m.Protects (m.context.level + 1) x (invoke (eval fuel) routine args m).machine ∧
      Throughout (fun _ there => m.Protects (m.context.level + 1) x there) fuel
        (invoke · routine args) m
  /-- Once the first clause of a loop has bound a variable, the loop changes no other one of its
  name. -/
  loop : ∀ {loop : ForLoop} {x value there}, loop.init = .assign x value →
    ForLoop.clause (eval fuel) loop.init (m.atLevel (m.context.level + 1)) = ⟨.ok (), there⟩ →
    there.scopes.Binds (m.context.level + 1) x ∧
      there.Protects (m.context.level + 1) x (eval (fuel + 1) loop.node m).machine ∧
      Throughout (fun _ t => there.Protects (m.context.level + 1) x t) fuel
        (fun ev => loop.rounds ev fuel) there

section Protection

variable {m there left : Machine} {g : Handle} {k : Nat} {x : String}

/-- A name that is bound in the store of the code shadows what is bound below. -/
theorem Machine.shaded_of_binds (hplace : placeContract.inv m) (houter : m.Outer)
    (hk : k ≤ m.context.level) (hbound : m.scopes.Binds k x) :
    m.Shaded m.context.scopes k x (m.scopes.get? · x) :=
  ⟨hplace, houter, hbound.shadows, fun _ => hk⟩

/-- On a shaded machine the outer variables are as they were. -/
theorem Machine.Shaded.protects (h : there.Shaded m.context.scopes k x (m.scopes.get? · x)) :
    m.Protects k x there := fun _ hj => h.store.below hj

/-- What is closed is above the level to which it is closed. -/
theorem Machine.Protects.closed (h : m.Protects (k + 1) x left)
    (hscopes : there.heap.scopes = left.heap.scopes.modify g (·.close k)) :
    m.Protects (k + 1) x there := by
  intro j hj
  rw [hscopes, ← h j hj]
  rcases Pool.get_modify_cases left.heap.scopes g (·.close k) m.context.scopes with
    ⟨-, -, hget⟩ | hget <;> rw [hget]
  rw [Scopes.get?_close, if_pos (by omega)]

/-- The machine on which the statements of a function begin is one on which its parameters shadow
what the caller has bound. -/
theorem Machine.shaded_bound (hplace : placeContract.inv m) (houter : m.Outer)
    (hdeep : m.depth < maxCallDepth) {routine : Routine} {args : List Value}
    (hlength : args.length = routine.params.length) (hx : x ∈ routine.params) :
    (m.inCall.bound routine args).Shaded m.context.scopes (m.context.level + 1) x
      (m.scopes.get? · x) := by
  have hcall : placeContract.inv m.inCall :=
    place_frames.scopeIn false (place_frames.callIn hplace hdeep)
  have hstore : (m.inCall.bound routine args).heap.scopes.get m.context.scopes
      = bindParams (m.context.level + 1) routine.params args m.scopes :=
    Pool.get_modify_self hplace.active.inRange _
  refine ⟨(place_frames.bindParams routine.params args hcall).inv, houter, ?_,
    fun _ => Nat.le_refl _⟩
  rw [hstore]
  exact ⟨Scopes.binds_bindParams_of_mem hlength hx, fun hj => Scopes.get?_bindParams hj _ _⟩

/-- A call of a function protects what its parameters hide, in all ways that it can go. -/
theorem Machine.protects_invoke (hplace : placeContract.inv m) (houter : m.Outer)
    {ev ev' : Evaluator} (hkept : ∀ n, (shadeContract m.context.scopes (m.context.level + 1) x
      (m.scopes.get? · x)).Kept (ev n) (ev' n)) {routine : Routine} (hx : x ∈ routine.params)
    (args : List Value) : invoke ev routine args m = invoke ev' routine args m ∧
      m.Protects (m.context.level + 1) x (invoke ev' routine args m).machine := by
  have F := shade_frames m.context.scopes (m.context.level + 1) x (m.scopes.get? · x)
  rcases Nat.lt_or_ge m.depth maxCallDepth with hdeep | hdeep
  · rw [invoke_of_lt hdeep, invoke_of_lt hdeep]
    -- what the body does, and that it protects the variables
    suffices hbody : runBody ev routine args m.inCall = runBody ev' routine args m.inCall ∧
        m.Protects (m.context.level + 1) x (runBody ev' routine args m.inCall).machine by
      rw [Exec.closing_apply, Exec.closing_apply, hbody.1]
      exact ⟨rfl, hbody.2.closed rfl⟩
    by_cases hlength : args.length = routine.params.length
    · rw [runBody_of_length hlength, runBody_of_length hlength]
      have hm := Machine.shaded_bound hplace houter hdeep hlength hx
      have hstatements := (Contract.kept_runBlock F.toLawful fun n (_ : n ∈ routine.body) =>
        hkept n).bind F.toLawful (Contract.kept_takeSignal F.toGround routine)
      exact ⟨hstatements.eq id hm, (hstatements _ hm).moves.inv.protects⟩
    · have hfails : ∀ ev, runBody ev routine args m.inCall
          = ⟨.error (.argumentCount routine.name routine.params.length args.length), m.inCall⟩ := by
        intro ev
        unfold runBody
        rw [if_pos hlength]
        rfl
      rw [hfails, hfails]
      exact ⟨rfl, fun _ _ => rfl⟩
  · have hrefused : ∀ ev, invoke ev routine args m = ⟨.error .stackOverflow, m⟩ :=
      fun ev => if_pos hdeep
    rw [hrefused, hrefused]
    exact ⟨rfl, fun _ _ => rfl⟩

/-- A clause that assigns to a variable evaluates the value and binds the variable at its level. -/
theorem ForLoop.assigned_of_clause {ev : Evaluator} (ev' : Evaluator) {value : Node}
    (hev : ev (.assign x value) = ev' value >>= fun v => assignVariable x v >>= fun _ =>
      pure Value.void) (h : ForLoop.clause ev (.assign x value) m = ⟨.ok (), there⟩) :
    ∃ v ran, ev' value (m.withClause true) = ⟨.ok v, ran⟩ ∧
      there = (ran.updateScopes (·.set x v ran.context.level ran.context.inClause)).withClause
        m.context.inClause := by
  unfold clause Exec.asClause at h
  rw [hev, Exec.closing_apply, bind_assoc, Exec.bind_apply] at h
  rcases hv : ev' value (m.withClause true) with ⟨v | _ | _, ran⟩ <;> rw [hv] at h
  · cases h
    exact ⟨v, ran, rfl, rfl⟩
  · cases h
  · cases h

/-- The first clause of a loop binds its variable, whatever its value does. -/
theorem ForLoop.shaded_of_init (hplace : placeContract.inv m) (houter : m.Outer) {fuel : Nat}
    {value : Node} (h : ForLoop.clause (eval fuel) (.assign x value)
      (m.atLevel (m.context.level + 1)) = ⟨.ok (), there⟩) :
    there.Shaded there.context.scopes (m.context.level + 1) x (there.scopes.get? · x) := by
  -- the clause evaluates the value first, then binds the variable one level up, since clauses bind
  -- anew
  cases fuel with
  | zero => cases h
  | succ fuel =>
    obtain ⟨v, ran, hvalue, hthere⟩ := assigned_of_clause (eval fuel) rfl h
    have hdeeper := place_frames.enterBlock hplace
    have hvalues := place_frames.moves_eval (place_frames.clauseIn hdeeper) fuel (anyNode value)
    rw [hvalue] at hvalues
    have moves : placeContract.Moves ((m.atLevel (m.context.level + 1)).withClause true) ran :=
      hvalues
    have hcontext : ran.context
        = { m.context with level := m.context.level + 1, inClause := true } :=
      moves.restored.context
    have hbound : placeContract.Moves ran
        (ran.updateScopes (·.set x v ran.context.level ran.context.inClause)) :=
      ⟨place_frames.assign value v trivial moves, rfl, rfl⟩
    have hleft : placeContract.Allows (m.atLevel (m.context.level + 1)) there :=
      hthere ▸ place_frames.clauseOut hdeeper (moves.trans place_frames.toLawful hbound)
    have hstore : there.scopes
        = (ran.heap.scopes.get ran.context.scopes).bind (m.context.level + 1) x v := by
      rw [hthere]
      refine (Pool.get_modify_self moves.inv.active.inRange _).trans ?_
      rw [hcontext]
      rfl
    have hscopes : there.context.scopes = m.context.scopes := by
      rw [hthere]
      exact (congrArg Context.scopes hcontext : ran.context.scopes = _)
    have hlevel : there.context.level = m.context.level + 1 := by
      rw [hthere]
      exact (congrArg Context.level hcontext : ran.context.level = _)
    -- the variable is bound at the level of the loop, in the store that is still that of the code
    refine Machine.shaded_of_binds hleft.inv (fun o howns => ?_) (Nat.le_of_eq hlevel.symm) ?_
    · rw [hscopes] at howns
      exact houter o (hleft.rel.2.2.owned howns hplace.active.inRange)
    · rw [hstore]
      exact Scopes.binds_bind.2 (.inl ⟨rfl, rfl⟩)

/-- The rounds of a loop protect what its variable hides, in all ways that they can go. -/
theorem ForLoop.protects_rounds (loop : ForLoop) {ev ev' : Evaluator}
    (hm : there.Shaded there.context.scopes k x (there.scopes.get? · x))
    (hkept : ∀ n, (shadeContract there.context.scopes k x (there.scopes.get? · x)).Kept
      (ev n) (ev' n)) (left : Nat) :
    loop.rounds ev left there = loop.rounds ev' left there ∧
      there.Protects k x (loop.rounds ev' left there).machine := by
  have F := shade_frames there.context.scopes k x (there.scopes.get? · x)
  have hstep := Contract.kept_asClause F.toScoped ((hkept loop.increment).bind F.toLawful fun _ =>
    Contract.kept_pure F.toLawful ())
  have hrounds := Contract.kept_repeatWhile F.toLawful
    (Contract.kept_holds F.toLawful (hkept loop.condition))
    (Contract.kept_runBlock F.toLawful fun n (_ : n ∈ loop.body) => hkept n) hstep left
  exact ⟨hrounds.eq id hm, (hrounds there hm).moves.inv.protects⟩

end Protection

/-- **A bound name protects what it hides.** Take any machine that comes about in the course of a
session, with code that does not work on the store of a function. However an evaluation ends, what
a name that is bound at the level of the code or below hides further out is the same at the end and
all the way. So a call leaves the variables alone that have the name of a parameter, and a loop
those that have the name of its variable. -/
theorem bound_name_protects {m : Machine} (h : Attained m) (houter : m.Outer) (fuel : Nat) :
    ShadowProtection fuel m := by
  have hplace : placeContract.inv m := h.orderly.shaped.lasting
  have hkept := fun (g : Handle) k x below (P : Node → Machine → Prop)
    (hP : ∀ n t, Machine.Shaded g k x below t → P n t) other n =>
    (shade_frames g k x below).kept_eval (fun n t _ ht => hP n t ht) other fuel (anyNode n)
  constructor
  case node =>
    intro k x node hk hbound
    have F := shade_frames m.context.scopes k x (m.scopes.get? · x)
    have hm := Machine.shaded_of_binds hplace houter hk hbound
    exact ⟨(F.moves_eval hm fuel (anyNode node)).inv.protects,
      F.throughout_eval id (fun _ _ _ ht => ht.protects) hm fuel (anyNode node)⟩
  case call =>
    -- the parameters of a call are bound one level up, and shadow what is outside
    intro routine x args hx
    have hcalls := fun other => Machine.protects_invoke hplace houter
      (hkept _ _ _ _ _ (fun _ _ ht => ht.protects) other) hx args
    exact ⟨(hcalls fun _ => eval 0).2, fun other => (hcalls other).1⟩
  case loop =>
    -- the first clause binds the variable of the loop, and the rounds are run in its shadow
    intro loop x value there hinit hclause
    have hm := ForLoop.shaded_of_init hplace houter (hinit ▸ hclause)
    have hrounds := fun other => ForLoop.protects_rounds loop hm
      (hkept _ _ _ _ _ (fun _ _ ht => ht.protects) other) fuel
    refine ⟨hm.store.bound, ?_, fun other => (hrounds other).1⟩
    have hend : (eval (fuel + 1) loop.node m).machine
        = ((loop.rounds (eval fuel) fuel there).machine).closeTo m.context.level := by
      have hafter : loop.AfterClause (eval fuel) fuel m fuel there := .init hclause
      show ((runFor (eval fuel) fuel loop.init loop.condition loop.increment loop.body >>= fun _ =>
        pure Value.void) m).machine = _
      rw [Exec.bind_apply, hafter.runFor_eq, Exec.closing_apply]
      rcases loop.rounds (eval fuel) fuel there with ⟨_ | _ | _, _⟩ <;> rfl
    rw [hend]
    exact (hrounds fun _ => eval 0).2.closed rfl

namespace OneCell

/-- A loop whose variable has the name of the variable that holds the cell. -/
def shadowing : ForLoop := ⟨.assign "b" (.int 0), .var "b", .assign "b" (.int 0), []⟩

/-- The machine inside the loop, before its first test. -/
def hidden : Machine := (ForLoop.clause (eval 2) shadowing.init (machine.atLevel 1)).machine

/-- A loop that fails in its test fails. -/
theorem runProgram_shadowing {ev ev' : Evaluator} {e : RuntimeError}
    (hloop : ev shadowing.node machine = evalNode ev' 2 shadowing.node machine)
    (hinit : ForLoop.clause ev' shadowing.init (machine.atLevel (machine.context.level + 1))
      = ⟨.ok (), hidden⟩)
    (htest : ev' shadowing.condition hidden = ⟨.error e, hidden⟩) :
    (runProgram ev [shadowing.node] machine).result = .error e := by
  have hrounds : shadowing.rounds ev' 2 hidden = ⟨.error e, hidden⟩ :=
    ForLoop.rounds_of_error (Exec.bind_error htest)
  have hafter : shadowing.AfterClause ev' 2 machine 2 hidden := .init hinit
  have hfor := hafter.runFor_eq
  rw [Exec.closing_apply, hrounds] at hfor
  have hends : evalNode ev' 2 shadowing.node machine = ⟨.error e, _⟩ := Exec.bind_error hfor
  simp only [runProgram, hloop, hends]

/-- The machine inside of the loop is one that an evaluation gets to. -/
theorem reachable_hidden : Reachable hidden := by
  have hscan : Token.scan "for b = 0; b; b = 0 end" = .ok [(.keyword .forDo, ⟨0, 3⟩),
      (.ident "b", ⟨4, 5⟩), (.sign .eq, ⟨6, 7⟩), (.int 0, ⟨8, 9⟩), (.sign .semi, ⟨9, 10⟩),
      (.ident "b", ⟨11, 12⟩), (.sign .semi, ⟨12, 13⟩), (.ident "b", ⟨14, 15⟩),
      (.sign .eq, ⟨16, 17⟩), (.int 0, ⟨18, 19⟩), (.keyword .endBlock, ⟨20, 23⟩)] := by
    decide +kernel
  have hparse : Program.ofSource "for b = 0; b; b = 0 end" = .ok [shadowing.node] := by
    rw [ofSource_of_scan hscan]
    cbv
  suffices hgets : GetsTo 3 (runProgram · [shadowing.node]) machine shadowing.condition hidden from
    .within idle hparse hgets
  refine getsTo_of_fails fun e ev hfails hrule => ?_
  -- everything but the test is evaluated as it is
  have helse : ∀ {node t}, node.label ≠ "variable" →
      ¬(node = shadowing.condition ∧ t = hidden) := by
    rintro node t hlabel ⟨rfl, -⟩
    exact hlabel rfl
  have hvalue : ev 1 (.int 0) = eval 1 (.int 0) :=
    funext fun t => hrule 0 (.int 0) t (helse (by decide))
  have hassign : ev 2 shadowing.init = eval 2 shadowing.init := by
    funext t
    refine (hrule 1 shadowing.init t (helse (by decide))).trans ?_
    show (ev 1 (.int 0) >>= fun v => _ : Exec Value) t = _
    rw [hvalue]
    rfl
  have hinit : ForLoop.clause (ev 2) shadowing.init (machine.atLevel (machine.context.level + 1))
      = ⟨.ok (), hidden⟩ := by
    unfold ForLoop.clause
    rw [hassign]
    rfl
  exact runProgram_shadowing (hrule 2 shadowing.node machine (helse (by decide))) hinit (hfails 1)

end OneCell

/-- Inside the loop an assignment to the variable of the loop leaves the cell in the outer one. -/
theorem bound_name_protects_cell :
    Attained OneCell.hidden ∧ OneCell.hidden.Outer ∧ OneCell.hidden.scopes.Binds 1 "b" ∧
      ((eval 3 (.assign "b" (.int 7)) OneCell.hidden).machine).scopes.get? 0 "b"
        = some (.object ⟨0⟩) := by
  have hreach := OneCell.reachable_hidden
  have houter : OneCell.hidden.Outer := hreach.orderly.outer rfl
  have hbound : OneCell.hidden.scopes.Binds 1 "b" := rfl
  have hprotects := (bound_name_protects (.reachable hreach) houter 3).node
    (.assign "b" (.int 7)) (Nat.le_refl 1) hbound
  exact ⟨.reachable hreach, houter, hbound, hprotects.1 0 Nat.zero_lt_one⟩

end BoxScript
