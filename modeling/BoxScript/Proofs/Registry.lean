import BoxScript.Proofs.Shapes

/-!
# Definitions that are made up

A further call in a row is made through a definition that reproduces the result before it. Such a
definition gets a made-up name, stands in the table of the program while the rest of the row runs,
and is dropped on every way out. Meanwhile the calls can do anything: register definitions, begin
rows of their own, import scripts, fail.

`Registry` is the part of the machine that matters for this, and `Registry.Laws` says what has to be
shown of a property of it: how it fares when a definition is registered, when a link of a row is
added and taken away, and when a script gets a copy of the table. All other steps leave the registry
alone.

Two properties follow. After an evaluation nothing is registered but what was before and what
statements have registered (`registry_tidy`). And what was registered before still is, unless a
statement has registered something else in its place, or its name is one of the made-up names: those
are not checked for being free, so a definition that the program itself has under such a name is
overwritten and then dropped (`row_on_definitions`).
-/

namespace BoxScript

/-- Made-up names do not repeat. -/
theorem chainName_injective : Function.Injective chainName := by
  intro j k h
  have hdigits : toString j = toString k := (String.append_right_inj "anonymous_").1 h
  have hvalue := congrArg (fun s : String => Nat.ofDigitChars 10 s.toList 0) hdigits
  simpa [Nat.toString_eq_ofList_toDigits] using hvalue

/-- The tables of definitions, the one that is in use, and how many definitions were made up. -/
structure Registry where
  tables : Pool Boxes
  active : Handle
  made : Nat

/-- The registry of a machine. -/
def Machine.registry (m : Machine) : Registry := ⟨m.heap.boxes, m.context.boxes, m.chained⟩

namespace Registry

variable {r r' sub : Registry} {x : String}

/-- The definition that a name stands for. -/
def get? (r : Registry) (x : String) : Option BoxDef := (r.tables.get r.active).get? x

/-- The table in use is there. -/
def InUse (r : Registry) : Prop := r.active.index < r.tables.size

/-! ## What steps do to the registry -/

/-- A definition is registered. -/
def declare (r : Registry) (d : BoxDef) : Registry :=
  { r with tables := r.tables.modify r.active (·.insert d.name d) }

/-- A definition is made up. -/
def link (r : Registry) (d : BoxDef) : Registry :=
  ⟨r.tables.modify r.active (·.insert (chainName r.made) d), r.active, r.made + 1⟩

/-- The definition that was made up on `r` is dropped on `r'`. -/
def unlink (r r' : Registry) : Registry :=
  { r' with tables := r'.tables.modify r.active (·.erase (chainName r.made)) }

/-- A definition is counted that could not be made up. -/
def counted (r : Registry) : Registry := { r with made := r.made + 1 }

/-- A script gets a copy of the table. -/
def fork (r : Registry) : Registry :=
  ⟨r.tables.push (r.tables.get r.active), r.tables.next, r.made⟩

/-- The script has ended well. -/
def merge (r sub : Registry) : Registry :=
  ⟨Context.mergeCell Dict.union r.active sub.active sub.tables, r.active, max r.made sub.made⟩

/-- The script has failed. -/
def discard (r sub : Registry) (made : Nat) : Registry := ⟨sub.tables, r.active, made⟩

/-- What every evaluation does: it keeps the tables, changes only the one in use, and does not turn
back the counter. -/
structure Keeps (r r' : Registry) : Prop where
  active : r'.active = r.active
  made : r.made ≤ r'.made
  size : r.tables.size ≤ r'.tables.size
  others : ∀ {h : Handle}, h.index < r.tables.size → h ≠ r.active →
    r'.tables.get h = r.tables.get h

theorem Keeps.refl (r : Registry) : r.Keeps r :=
  ⟨rfl, Nat.le_refl _, Nat.le_refl _, fun _ _ => rfl⟩

/-- Keeping the tables composes, since counters and pools only grow. -/
theorem Keeps.trans {r₀ r₁ r₂ : Registry} (h : r₀.Keeps r₁) (h' : r₁.Keeps r₂) : r₀.Keeps r₂ where
  active := h'.active.trans h.active
  made := Nat.le_trans h.made h'.made
  size := Nat.le_trans h.size h'.size
  others hh hne := by
    rw [h'.others (Nat.lt_of_lt_of_le hh h.size) (by rwa [h.active]), h.others hh hne]

theorem Keeps.inUse (h : r.Keeps r') (hr : r.InUse) : r'.InUse := by
  unfold InUse
  rw [h.active]
  exact Nat.lt_of_lt_of_le hr h.size

/-- A change of the table in use. -/
theorem keeps_modify (r : Registry) (f : Boxes → Boxes) {made : Nat} (hmade : r.made ≤ made) :
    r.Keeps ⟨r.tables.modify r.active f, r.active, made⟩ where
  active := rfl
  made := hmade
  size := Nat.le_of_eq (Pool.size_modify _ _ _).symm
  others _ hne := Pool.get_modify_of_ne (Ne.symm hne) f

/-- A change of the table in use is seen in what the registry finds. -/
theorem get?_modify (hr : r.InUse) (f : Boxes → Boxes) (made : Nat) :
    get? ⟨r.tables.modify r.active f, r.active, made⟩ x = (f (r.tables.get r.active)).get? x := by
  show ((r.tables.modify r.active f).get r.active).get? x = _
  rw [Pool.get_modify_self hr]

/-- A declaration is found under its own name, and nothing else changes. -/
theorem get?_declare (hr : r.InUse) (d : BoxDef) :
    (r.declare d).get? x = if x = d.name then some d else r.get? x := by
  rw [declare, get?_modify hr, Dict.get?_insert]
  rfl

/-- A made-up definition is found under the name of its number. -/
theorem get?_link (hr : r.InUse) (d : BoxDef) :
    (r.link d).get? x = if x = chainName r.made then some d else r.get? x := by
  rw [link, get?_modify hr, Dict.get?_insert]
  rfl

theorem keeps_link (r : Registry) (d : BoxDef) : r.Keeps (r.link d) :=
  keeps_modify r _ (Nat.le_succ _)

/-- The definition is dropped from the table in use, which is still the one it was written to. -/
theorem unlink_eq (h : r'.active = r.active) :
    r.unlink r'
      = ⟨r'.tables.modify r'.active (·.erase (chainName r.made)), r'.active, r'.made⟩ := by
  unfold unlink
  rw [h]

/-- What was made up is not found any more; everything else is. -/
theorem get?_unlink (hr : r'.InUse) (h : r'.active = r.active) :
    (r.unlink r').get? x = if x = chainName r.made then none else r'.get? x := by
  rw [unlink_eq h, get?_modify hr, Dict.get?_erase]
  rfl

theorem keeps_unlink (h : r'.active = r.active) : r'.Keeps (r.unlink r') := by
  rw [unlink_eq h]
  exact keeps_modify r' _ (Nat.le_refl _)

theorem inUse_fork (r : Registry) : r.fork.InUse := by
  show r.tables.size < (r.tables.push _).size
  rw [Pool.size_push]
  omega

theorem get?_fork (r : Registry) : r.fork.get? x = r.get? x := by
  show ((r.tables.push _).get r.tables.next).get? x = _
  rw [Pool.get_push_next]
  rfl

theorem active_ne_fork (hr : r.InUse) : r.active ≠ r.fork.active := by
  intro h
  have hindex : r.active.index = r.tables.size := congrArg Handle.index h
  unfold InUse at hr
  omega

/-- What a script does on its copy is no matter for the tables that were there before. -/
theorem get_of_fork (keeps : r.fork.Keeps sub) {h : Handle} (hh : h.index < r.tables.size) :
    sub.tables.get h = r.tables.get h := by
  have hlt : h.index < r.fork.tables.size := by
    show _ < (r.tables.push _).size
    rw [Pool.size_push]
    omega
  have hne : h ≠ r.fork.active := by
    intro heq
    have hindex : h.index = r.tables.size := congrArg Handle.index heq
    omega
  rw [keeps.others hlt hne]
  exact Pool.get_push_of_lt hh _

theorem size_of_fork (keeps : r.fork.Keeps sub) : r.tables.size ≤ sub.tables.size := by
  have hsize : (r.tables.push (r.tables.get r.active)).size ≤ sub.tables.size := keeps.size
  rw [Pool.size_push] at hsize
  omega

/-- A merge changes the caller's table only, and takes the larger count. -/
theorem merge_eq (hr : r.InUse) (keeps : r.fork.Keeps sub) :
    r.merge sub = ⟨sub.tables.modify r.active (·.union (sub.tables.get sub.active)), r.active,
      max r.made sub.made⟩ := by
  have hne : r.active ≠ sub.active := by
    rw [keeps.active]
    exact active_ne_fork hr
  unfold merge Context.mergeCell
  rw [if_neg hne]

theorem keeps_merge (hr : r.InUse) (keeps : r.fork.Keeps sub) : r.Keeps (r.merge sub) := by
  rw [merge_eq hr keeps]
  refine ⟨rfl, Nat.le_max_left _ _, ?_, fun hh hne => ?_⟩
  · show _ ≤ (Pool.modify _ _ _).size
    rw [Pool.size_modify]
    exact size_of_fork keeps
  · show (Pool.modify _ _ _).get _ = _
    rw [Pool.get_modify_of_ne (Ne.symm hne), get_of_fork keeps hh]

theorem get?_merge (hr : r.InUse) (keeps : r.fork.Keeps sub) :
    (r.merge sub).get? x = (r.get? x).or (sub.get? x) := by
  rw [merge_eq hr keeps]
  show ((sub.tables.modify r.active _).get r.active).get? x = _
  rw [Pool.get_modify_self (Nat.lt_of_lt_of_le hr (size_of_fork keeps)), Dict.get?_union,
    get_of_fork keeps hr]
  rfl

/-- After a script that has failed the caller's table is in use as before. -/
theorem keeps_discard (keeps : r.fork.Keeps sub) {made : Nat}
    (hmade : made = r.made ∨ made = sub.made) : r.Keeps (r.discard sub made) := by
  have hcounted : r.made ≤ sub.made := keeps.made
  have hsize : r.tables.size ≤ sub.tables.size := size_of_fork keeps
  refine ⟨rfl, ?_, hsize, fun hh _ => get_of_fork keeps hh⟩
  rcases hmade with rfl | rfl
  · exact Nat.le_refl _
  · exact hcounted

/-- A script that has failed changes nothing that is found. -/
theorem get?_discard (hr : r.InUse) (keeps : r.fork.Keeps sub) (made : Nat) :
    (r.discard sub made).get? x = r.get? x := by
  show (sub.tables.get r.active).get? x = _
  rw [get_of_fork keeps hr]
  rfl

/-! ## Properties of the registry -/

/-- A property of the registry is kept by all steps of runs in a scope. -/
structure Laws (inv : Registry → Prop) (rel : Registry → Registry → Prop)
    (scope : Node → Machine → Prop) : Prop where
  refl : ∀ {r}, inv r → rel r r
  trans : ∀ {r₀ r₁ r₂ : Registry}, r₀.Keeps r₁ → r₁.Keeps r₂ → rel r₀ r₁ → rel r₁ r₂ → rel r₀ r₂
  declare : ∀ {m declaration whole}, scope (.box declaration) m →
    m.Accepts (.ofDecl declaration) whole → m.registry.InUse → inv m.registry →
    inv (m.registry.declare whole) ∧ rel m.registry (m.registry.declare whole)
  linkIn : ∀ {r : Registry} (d : BoxDef), r.InUse → inv r → inv (r.link d)
  linkOut : ∀ {r r' : Registry} {d : BoxDef}, r.InUse → (r.link d).Keeps r' → inv r → inv r' →
    rel (r.link d) r' → inv (r.unlink r') ∧ rel r (r.unlink r')
  linkRefused : ∀ {r : Registry}, r.InUse → inv r → inv (r.unlink r.counted) ∧
    rel r (r.unlink r.counted)
  fork : ∀ {r : Registry}, inv r → inv r.fork
  merge : ∀ {r sub : Registry}, r.InUse → r.fork.Keeps sub → inv r → inv sub → rel r.fork sub →
    inv (r.merge sub) ∧ rel r (r.merge sub)
  discard : ∀ {r sub : Registry} {made : Nat}, made = r.made ∨ made = sub.made → r.InUse →
    r.fork.Keeps sub → inv r → inv sub → rel r.fork sub →
    inv (r.discard sub made) ∧ rel r (r.discard sub made)

/-- A property of the registry as a contract. -/
def contract (inv : Registry → Prop) (rel : Registry → Registry → Prop)
    (scope : Node → Machine → Prop) : Contract where
  lax := True
  inv m := m.registry.InUse ∧ inv m.registry
  rel m m' := m.registry.Keeps m'.registry ∧ rel m.registry m'.registry
  scope := scope

variable {inv : Registry → Prop} {rel : Registry → Registry → Prop}
  {scope : Node → Machine → Prop}

/-- Where the tables are kept, only the invariant and the relation have to be shown. -/
theorem allows_of_keeps {m m' : Machine} (hm : m.registry.InUse)
    (keeps : m.registry.Keeps m'.registry) (h : inv m'.registry ∧ rel m.registry m'.registry) :
    (contract inv rel scope).Allows m m' :=
  ⟨⟨keeps.inUse hm, h.1⟩, keeps, h.2⟩

/-- A step that leaves the registry alone. -/
theorem Laws.untouched (L : Laws inv rel scope) {m m' : Machine}
    (hm : (contract inv rel scope).inv m) (hsame : m'.registry = m.registry) :
    (contract inv rel scope).Allows m m' := by
  refine allows_of_keeps hm.1 ?_ ?_
  · rw [hsame]
    exact .refl _
  · rw [hsame]
    exact ⟨hm.2, L.refl hm.2⟩

/-- The way out of something that has the registry of its caller. -/
theorem leaving {m m' entered left : Machine} (moves : (contract inv rel scope).Moves entered left)
    (hentered : entered.registry = m.registry) (hleft : m'.registry = left.registry) :
    (contract inv rel scope).Allows m m' := by
  obtain ⟨⟨⟨huse, hinv⟩, keeps, hrel⟩, -⟩ := moves
  rw [hentered] at keeps hrel
  refine ⟨⟨?_, ?_⟩, ?_, ?_⟩ <;> rw [hleft] <;> assumption

/-- **A property that obeys the laws is kept by every run in its scope.** -/
theorem Laws.rules (L : Laws inv rel scope) :
    (contract inv rel scope).Rules AnyNode AnyNode where
  fragment := anyNode_language.toFragment
  scripts {m} _ := anyNode_language.scriptsIn m
  code {m} _ := m.codeIn_any
  named _ _ _ := trivial
  fresh _ _ := trivial
  refl hm := ⟨.refl _, L.refl hm.2⟩
  trans h h' := ⟨h.1.trans h'.1, L.trans h.1 h'.1 h.2 h'.2⟩
  -- declarations, links and scripts go by the laws; everything else leaves the registry untouched
  console _ hm := L.untouched hm rfl
  assign _ _ _ moves := L.untouched moves.inv rfl
  declare _ _ hm := L.untouched hm rfl
  register hscope accepted _ hm := allows_of_keeps hm.1 (keeps_modify _ _ (Nat.le_refl _))
    (L.declare hscope accepted hm.1 hm.2)
  extend _ _ _ hm := L.untouched hm rfl
  allocate := by
    intro _ m _ d fields _ _ _ _ hm
    obtain ⟨methods, heap, grown, -, hmade⟩ := allocate_cases d fields m
    refine L.untouched hm ?_
    rw [hmade]
    show Registry.mk heap.boxes _ _ = _
    rw [grown.boxes]
    rfl
  setField _ _ _ hm := L.untouched hm rfl
  linkIn h hm := ⟨(keeps_link _ _).inUse hm.1, L.linkIn _ hm.1 hm.2⟩
  linkOut := by
    intro m m' h hm moves
    have keeps : (m.registry.link _).Keeps m'.registry := moves.rel.1
    have hactive : m'.registry.active = m.registry.active := keeps.active
    have kept := ((keeps_link _ _).trans keeps).trans (keeps_unlink hactive)
    have hsame : (dropBox m.context.boxes (chainName m.chained) m').registry
        = m.registry.unlink m'.registry := rfl
    exact allows_of_keeps hm.1 kept (L.linkOut hm.1 keeps hm.2 moves.inv.2 moves.rel.2)
  linkRefused hm := allows_of_keeps hm.1 (keeps_modify _ _ (Nat.le_succ _))
    (L.linkRefused hm.1 hm.2)
  push _ hm := L.untouched hm rfl
  dropSignal hm := L.untouched hm rfl
  bindParams _ _ hm := L.untouched hm rfl
  scopeIn _ hm := hm
  scopeOut _ _ moves := leaving moves rfl rfl
  clauseIn hm := hm
  clauseOut _ moves := leaving moves rfl rfl
  callIn hm _ := hm
  callOut _ _ moves := leaving moves rfl rfl
  enters _ :=
    { methodIn := fun hm _ => hm
      methodOut := by
        intro m m' routine access locals hm _ moves
        refine leaving moves rfl ?_
        show Registry.mk _ m.context.boxes _ = Registry.mk _ m'.context.boxes _
        rw [moves.restored.context]
        rfl }
  fork {m} hm := ⟨inUse_fork m.registry, L.fork hm.2⟩
  merge hm moves := allows_of_keeps hm.1 (keeps_merge hm.1 moves.rel.1)
    (L.merge hm.1 moves.rel.1 hm.2 moves.inv.2 moves.rel.2)
  discard := by
    intro m sub chained hchained hm moves
    have keeps : m.registry.fork.Keeps sub.registry := moves.rel.1
    exact allows_of_keeps hm.1 (keeps_discard keeps hchained)
      (L.discard hchained hm.1 keeps hm.2 moves.inv.2 moves.rel.2)

section Evaluations

variable {m : Machine} {fuel : Nat} {node : Node}

/-- What an evaluation in scope makes of the registry. -/
theorem Laws.eval (L : Laws inv rel scope) (huse : m.registry.InUse) (hm : inv m.registry)
    (hscope : Throughout scope fuel (· node) m) :
    rel m.registry (eval fuel node m).machine.registry := by
  have hstart : (contract inv rel scope).inv m := ⟨huse, hm⟩
  have hlifts := Contract.lifts_eval (anyNode node) hstart
  exact (L.rules.moves_of_throughout trivial hlifts hscope).rel.2

/-- An evaluation in the scope that ends keeps the invariant on its whole course. -/
theorem Laws.throughout (L : Laws inv rel scope) (huse : m.registry.InUse) (hm : inv m.registry)
    (hscope : Throughout scope fuel (· node) m)
    (hends : (BoxScript.eval fuel node m).result ≠ .unfinished) :
    Throughout (fun _ there => inv there.registry) fuel (· node) m := by
  have hstart : (contract inv rel scope).inv m := ⟨huse, hm⟩
  have hlifts := Contract.lifts_eval (anyNode node) hstart
  exact L.rules.throughout_of_throughout trivial hlifts hscope hends
    fun _ _ _ _ hthere => hthere.2

end Evaluations

end Registry

/-- The node is a statement that registers the definition under the name on the machine. -/
def Node.Registers (node : Node) (there : Machine) (name : String) (d : BoxDef) : Prop :=
  ∃ declaration, node = .box declaration ∧ there.Accepts (.ofDecl declaration) d ∧ d.name = name

/-! ## What is left of made-up definitions -/

namespace Registry

variable {start r r' : Registry} {name : String} {d : BoxDef}

/-- A definition that was not registered at the start is a made-up one, and the counter has passed
its number. -/
structure Numbered (start : Registry) (name : String) (d : BoxDef) (r : Registry) : Prop where
  made : start.made ≤ r.made
  entry : r.get? name = some d → start.get? name = some d ∨
    ∃ k, start.made ≤ k ∧ k < r.made ∧ name = chainName k

/-- The definition is not registered by a step. -/
def NotNew (name : String) (d : BoxDef) (r r' : Registry) : Prop :=
  r'.get? name = some d → r.get? name = some d

/-- If nothing new is under the name, it is numbered as before. -/
theorem Numbered.of_notNew (hr : Numbered start name d r) (hmade : r.made ≤ r'.made)
    (hrel : NotNew name d r r') : Numbered start name d r' where
  made := Nat.le_trans hr.made hmade
  entry h := by
    rcases hr.entry (hrel h) with hold | ⟨k, hlow, hhigh, hname⟩
    · exact .inl hold
    · exact .inr ⟨k, hlow, Nat.lt_of_lt_of_le hhigh hmade, hname⟩

/-- Dropping a made-up definition brings up nothing new, if its own name is left out. -/
theorem notNew_unlink (huse : r'.InUse) (hactive : r'.active = r.active)
    (h : name ≠ chainName r.made → NotNew name d r r') : NotNew name d r (r.unlink r') := by
  intro hentry
  rw [get?_unlink huse hactive] at hentry
  by_cases hname : name = chainName r.made
  · rw [if_pos hname] at hentry
    cases hentry
  · rw [if_neg hname] at hentry
    exact h hname hentry

/-- Links come and go, and only statements register definitions for good. -/
theorem numbered_laws (start : Registry) (name : String) (d : BoxDef) :
    Laws (Numbered start name d) (NotNew name d)
      fun node there => ¬node.Registers there name d where
  refl _ := id
  trans _ _ h h' := fun hentry => h (h' hentry)
  declare := by
    intro m declaration whole hscope accepted huse hr
    have hrel : NotNew name d m.registry (m.registry.declare whole) := by
      intro hentry
      -- a declaration adds one entry, its own, and no such one is registered in the scope
      rw [get?_declare huse] at hentry
      by_cases hname : name = whole.name
      · rw [if_pos hname] at hentry
        cases hentry
        exact absurd ⟨declaration, rfl, accepted, hname.symm⟩ hscope
      · rwa [if_neg hname] at hentry
    exact ⟨hr.of_notNew (Nat.le_refl _) hrel, hrel⟩
  linkIn := by
    intro r d' huse hr
    refine ⟨Nat.le_succ_of_le hr.made, fun hentry => ?_⟩
    rw [get?_link huse] at hentry
    by_cases hname : name = chainName r.made
    · exact .inr ⟨r.made, hr.made, Nat.lt_succ_self _, hname⟩
    · rw [if_neg hname] at hentry
      rcases hr.entry hentry with hold | ⟨k, hlow, hhigh, hk⟩
      · exact .inl hold
      · exact .inr ⟨k, hlow, Nat.lt_succ_of_lt hhigh, hk⟩
  linkOut := by
    intro r r' d' huse keeps hr hr' hrel
    have hmade : r.made ≤ r'.made := Nat.le_of_succ_le keeps.made
    have huse' := keeps.inUse ((keeps_link r d').inUse huse)
    -- under the name of the link nothing is left, and elsewhere there is what the link had before
    -- it
    have hdropped : NotNew name d r (r.unlink r') := by
      refine notNew_unlink huse' keeps.active fun hname hentry => ?_
      have hlinked := hrel hentry
      rwa [get?_link huse, if_neg hname] at hlinked
    exact ⟨hr.of_notNew hmade hdropped, hdropped⟩
  linkRefused := by
    intro r huse hr
    have hdropped : NotNew name d r (r.unlink r.counted) :=
      notNew_unlink huse rfl fun _ hentry => hentry
    exact ⟨hr.of_notNew (Nat.le_succ _) hdropped, hdropped⟩
  fork := by
    intro r hr
    refine hr.of_notNew (Nat.le_refl _) fun hentry => ?_
    rwa [get?_fork] at hentry
  merge := by
    intro r sub huse keeps hr _ hrel
    have hmerged : NotNew name d r (r.merge sub) := by
      intro hentry
      rw [get?_merge huse keeps] at hentry
      rcases Option.or_eq_some_iff.1 hentry with hold | ⟨-, hsub⟩
      · exact hold
      · have hcopied := hrel hsub
        rwa [get?_fork] at hcopied
    exact ⟨hr.of_notNew (Nat.le_max_left _ _) hmerged, hmerged⟩
  discard := by
    intro r sub made hmade huse keeps hr _ _
    have hdropped : NotNew name d r (r.discard sub made) := by
      intro hentry
      rwa [get?_discard huse keeps] at hentry
    exact ⟨hr.of_notNew (keeps_discard keeps hmade).made hdropped, hdropped⟩

end Registry

/-- The counter is not turned back. -/
theorem Registry.count_laws (k : Nat) :
    Laws (k ≤ ·.made) (fun r r' => r.made ≤ r'.made) fun _ _ => True where
  refl _ := Nat.le_refl _
  trans _ _ h h' := Nat.le_trans h h'
  declare _ _ _ hr := ⟨hr, Nat.le_refl _⟩
  linkIn _ _ hr := Nat.le_succ_of_le hr
  linkOut _ keeps _ hr' _ := ⟨hr', Nat.le_of_succ_le keeps.made⟩
  linkRefused _ hr := ⟨Nat.le_succ_of_le hr, Nat.le_succ _⟩
  fork hr := hr
  merge _ _ hr _ _ := ⟨Nat.le_trans hr (Nat.le_max_left _ _), Nat.le_max_left _ _⟩
  discard hmade _ keeps hr _ _ :=
    ⟨Nat.le_trans hr (keeps_discard keeps hmade).made, (keeps_discard keeps hmade).made⟩

section Links

variable {fuel : Nat} {m : Machine} {o : Handle} {call : Invocation} {calls : List Invocation}

/-- The counter stays above a number. -/
abbrev Registry.countContract (k : Nat) : Contract :=
  contract (k ≤ ·.made) (fun r r' => r.made ≤ r'.made) fun _ _ => True

/-- A link runs on the machine whose counter has gone past its number. -/
theorem Registry.inv_linked (huse : m.registry.InUse) (o : Handle) :
    (countContract (m.chained + 1)).inv (m.linked o) :=
  ⟨(keeps_link m.registry _).inUse huse, Nat.le_refl _⟩

/-- As long as the definition of a link is registered, the counter is above its number. -/
theorem throughout_link (huse : m.registry.InUse)
    (hends : (chainFrom (eval fuel) m.context.boxes (.object o) (call :: calls) m).result
      ≠ .unfinished) :
    Throughout (fun _ there => m.chained < there.chained) fuel
      (chainFrom · m.context.boxes (.object o) (call :: calls)) m := by
  have F := (Registry.count_laws (m.chained + 1)).rules
  rcases chainFrom_cases m.context.boxes o call calls m with ⟨e, hstep⟩ | hstep
  · exact fun other => (hstep _).trans (hstep _).symm
  · refine Throughout.closing ?_ hstep
    have hlifts : (Registry.countContract (m.chained + 1)).Lifts AnyNode
        (linkFrom · m.context.boxes (chainName m.chained) call calls) (m.linked o) := by
      intro ev ev' h
      have G := F.given h
      refine Contract.meets_linkFrom F.toSteps G (chainName m.chained) (fun _ _ => trivial) ?_
        (Registry.inv_linked huse o) rfl
      exact fun v _ => Contract.meets_chainFrom F.toSteps G (fun _ _ _ _ => trivial) v
    have hclosed := hstep (eval fuel)
    rw [Exec.closing_apply] at hclosed
    rw [hclosed] at hends
    exact F.throughout_of_throughout trivial hlifts (throughout_true _ _ _) hends
      fun _ _ _ _ hthere => hthere.2

/-- When the call of a link has ended and the next link begins, the counter is still above the
number of the first one. -/
theorem chained_lt_of_link (huse : m.registry.InUse) {v : Value} {m₁ : Machine}
    (hcall : (instantiate (eval fuel) (chainName m.chained) >>= fun copy =>
      callMethod (eval fuel) copy call) (m.linked o) = ⟨.ok v, m₁⟩) : m.chained < m₁.chained := by
  have F := (Registry.count_laws (m.chained + 1)).rules
  have hlifts : (Registry.countContract (m.chained + 1)).Lifts AnyNode
      (fun ev => instantiate ev (chainName m.chained) >>= fun copy => callMethod ev copy call)
      (m.linked o) := by
    intro ev ev' h
    have G := F.given h
    have hmade := Contract.kept_instantiate F.toSteps G (chainName m.chained)
    refine (hmade.bind F.toLawful fun copy => ?_) _ (Registry.inv_linked huse o)
    exact Contract.kept_callMethod F.toSteps G trivial fun _ _ => trivial
  have moves := F.moves_of_throughout trivial hlifts (throughout_true fuel _ _)
  have hcount : m.chained + 1 ≤ ((instantiate (eval fuel) (chainName m.chained) >>= fun copy =>
      callMethod (eval fuel) copy call) (m.linked o)).machine.chained := moves.rel.2
  rw [hcall] at hcount
  exact hcount

end Links

/-- What an evaluation on the machine `m` does with definitions that it makes up. -/
structure RegistryTidy (fuel : Nat) (node : Node) (m : Machine) : Prop where
  /-- What is registered at the end was so before, or a statement has registered it. -/
  left : ∀ {name d}, (eval fuel node m).machine.boxes.get? name = some d →
    m.boxes.get? name = some d ∨
      Happens (fun n there => n.Registers there name d) fuel (· node) m
  /-- On the way, anything else that is registered is made up, with a number that the counter has
  passed since the beginning. -/
  numbered : ∀ {name d},
    ¬Happens (fun n there => n.Registers there name d) fuel (· node) m →
    Throughout (fun _ there => there.boxes.get? name = some d → m.boxes.get? name = some d ∨
      ∃ k, m.chained ≤ k ∧ k < there.chained ∧ name = chainName k) fuel (· node) m
  /-- The counter is not turned back, neither on the way nor at the end. -/
  counts : Throughout (fun _ there => m.chained ≤ there.chained) fuel (· node) m ∧
    m.chained ≤ (eval fuel node m).machine.chained
  /-- As long as a made-up definition is registered, the counter is above its number, so that what
  is made up meanwhile has other names. -/
  apart : ∀ {t o call calls}, t.registry.InUse →
    (chainFrom (eval fuel) t.context.boxes (.object o) (call :: calls) t).result ≠ .unfinished →
    Throughout (fun _ there => ∀ k, there.chained ≤ k → chainName k ≠ chainName t.chained) fuel
      (chainFrom · t.context.boxes (.object o) (call :: calls)) t
  /-- So has the next definition in the row, which is made up when the call of the first one has
  ended. -/
  following : ∀ {t t₁ : Machine} {o call v}, t.registry.InUse →
    (instantiate (eval fuel) (chainName t.chained) >>= fun copy =>
      callMethod (eval fuel) copy call) (t.linked o) = ⟨.ok v, t₁⟩ →
    chainName t₁.chained ≠ chainName t.chained

/-- **No made-up definition is left behind.** However an evaluation ends that a session can get to,
rows of calls with all that happens in them included, the table of definitions has nothing new but
what statements have registered, and made-up names do not clash. -/
theorem registry_tidy {m : Machine} (h : Reachable m) {fuel : Nat} {node : Node}
    (hends : (eval fuel node m).result ≠ .unfinished) : RegistryTidy fuel node m := by
  have huse : m.registry.InUse := h.shaped.boxes
  have hnumbered : ∀ name d, Registry.Numbered m.registry name d m.registry :=
    fun _ _ => ⟨Nat.le_refl _, .inl⟩
  constructor
  case left =>
    intro name d hentry
    -- either some statement of the course registers the entry, or the laws say that it is not new
    by_cases hscope : Throughout (fun n there => ¬n.Registers there name d) fuel (· node) m
    · have L := Registry.numbered_laws m.registry name d
      exact .inl (L.eval huse (hnumbered name d) hscope hentry)
    · exact .inr hscope
  case numbered =>
    intro name d hscope
    have L := Registry.numbered_laws m.registry name d
    refine (L.throughout huse (hnumbered name d) (not_not.1 hscope) hends).mono ?_
    exact fun _ there hthere => hthere.entry
  case counts =>
    have L := Registry.count_laws m.chained
    have hscope := throughout_true fuel (· node) m
    exact ⟨L.throughout huse (Nat.le_refl _) hscope hends, L.eval huse (Nat.le_refl _) hscope⟩
  case apart =>
    intro t o call calls huse hends
    -- two made-up names are equal only for one number, and the count is past that of the link
    refine (throughout_link huse hends).mono fun _ there hthere k hk hname => ?_
    have hnumber := chainName_injective hname
    omega
  case following =>
    intro t t₁ o call v huse hcall hname
    have hlater := chained_lt_of_link huse hcall
    have hnumber := chainName_injective hname
    omega

/-- A row of two calls on the cell leaves its table tidy. -/
theorem registry_tidy_cell :
    (eval 9 (.method (.named "b") ⟨"f", [.var "b"]⟩ [⟨"f", [.var "b"]⟩]) OneCell.machine).result
        = .ok (.object ⟨0⟩) ∧
      RegistryTidy 9 (.method (.named "b") ⟨"f", [.var "b"]⟩ [⟨"f", [.var "b"]⟩])
        OneCell.machine := by
  have hvalue : (eval 9 (.method (.named "b") ⟨"f", [.var "b"]⟩ [⟨"f", [.var "b"]⟩])
      OneCell.machine).result = .ok (.object ⟨0⟩) := by cbv
  refine ⟨hvalue, registry_tidy OneCell.reachable fun hends => ?_⟩
  rw [hvalue] at hends
  cases hends

/-! ## What becomes of the definitions of the program -/

namespace Registry

variable {r r' : Registry} {table : Handle} {name : String} {d : BoxDef}

/-- In one of the tables a definition stays, unless its name is made up meanwhile. -/
def Stays (table : Handle) (name : String) (d : BoxDef) (r r' : Registry) : Prop :=
  r.active = table → r.get? name = some d → r'.get? name = some d ∨
    ∃ k, r.made ≤ k ∧ k < r'.made ∧ name = chainName k

theorem Stays.of_eq (h : r'.get? name = r.get? name) : Stays table name d r r' :=
  fun _ hentry => .inl (h.trans hentry)

/-- A definition can stay only where no link has its name. -/
theorem stays_unlink (huse : r'.InUse) (hactive : r'.active = r.active) (hmade : r.made < r'.made)
    (h : name ≠ chainName r.made → Stays table name d r r') :
    Stays table name d r (r.unlink r') := by
  intro htable hentry
  by_cases hname : name = chainName r.made
  · exact .inr ⟨r.made, Nat.le_refl _, hmade, hname⟩
  · rcases h hname htable hentry with hstill | hmadeUp
    · refine .inl ?_
      rw [get?_unlink huse hactive, if_neg hname]
      exact hstill
    · exact .inr hmadeUp

/-- A definition gives way only to a statement on its own table, and to links. -/
theorem stays_laws (table : Handle) (name : String) (d : BoxDef) :
    Laws (fun _ => True) (Stays table name d) fun node there =>
      ¬(there.context.boxes = table ∧ ∃ whole, node.Registers there name whole) where
  refl _ := .of_eq rfl
  trans := by
    intro r₀ r₁ r₂ keeps keeps' h h' htable hentry
    have hmade := keeps.made
    have hmade' := keeps'.made
    -- the entry stays in both steps, or it has a number that one of them has counted
    rcases h htable hentry with hstill | ⟨k, hlow, hhigh, hname⟩
    · rcases h' (keeps.active.trans htable) hstill with hstill | ⟨k, hlow, hhigh, hname⟩
      · exact .inl hstill
      · exact .inr ⟨k, by omega, by omega, hname⟩
    · exact .inr ⟨k, by omega, by omega, hname⟩
  declare := by
    intro m declaration whole hscope accepted huse _
    refine ⟨trivial, fun htable hentry => ?_⟩
    by_cases hname : name = whole.name
    · exact absurd ⟨htable, whole, declaration, rfl, accepted, hname.symm⟩ hscope
    · refine .inl ?_
      rw [get?_declare huse, if_neg hname]
      exact hentry
  linkIn _ _ _ := trivial
  linkOut := by
    intro r r' d' huse keeps _ _ hrel
    have huse' := keeps.inUse ((keeps_link r d').inUse huse)
    refine ⟨trivial, stays_unlink huse' keeps.active keeps.made fun hname htable hentry => ?_⟩
    have hlinked : (r.link d').get? name = some d := by
      rw [get?_link huse, if_neg hname]
      exact hentry
    rcases hrel htable hlinked with hstill | ⟨k, hlow, hhigh, hk⟩
    · exact .inl hstill
    · exact .inr ⟨k, Nat.le_of_succ_le hlow, hhigh, hk⟩
  linkRefused := by
    intro r huse _
    exact ⟨trivial, stays_unlink huse rfl (Nat.lt_succ_self _) fun _ => .of_eq rfl⟩
  fork _ := trivial
  merge := by
    intro r sub huse keeps _ _ _
    refine ⟨trivial, fun _ hentry => .inl ?_⟩
    rw [get?_merge huse keeps, hentry]
    rfl
  discard := by
    intro r sub made _ huse keeps _ _ _
    exact ⟨trivial, .of_eq (get?_discard huse keeps made)⟩

end Registry

/-- Nothing stands under a name that has just been dropped. -/
theorem get?_dropBox (table : Handle) (name : String) (m : Machine) :
    ((dropBox table name m).heap.boxes.get table).get? name = none := by
  show ((m.heap.boxes.modify table (·.erase name)).get table).get? name = none
  by_cases htable : table.index < m.heap.boxes.size
  · rw [Pool.get_modify_self htable, Dict.get?_erase, if_pos rfl]
  · rw [Pool.get_of_le]
    · rfl
    · rw [Pool.size_modify]
      omega

/-- A row of calls goes on from the instance that its first call gives. -/
theorem callChain_of_first {ev : Evaluator} {receiver : Receiver} {first : Invocation}
    {further : List Invocation} {m m₁ : Machine} {v : Value}
    (h : (receiverInstance ev receiver >>= fun o => callMethod ev o first) m = ⟨.ok v, m₁⟩) :
    callChain ev receiver first further m = chainFrom ev m.context.boxes v further m₁ := by
  obtain ⟨o, m₀, hreceiver, hcall⟩ := Exec.ok_of_bind h
  show (receiverInstance ev receiver >>= fun o => callMethod ev o first >>= fun v =>
    chainFrom ev m.context.boxes v further) m = _
  rw [Exec.bind_ok hreceiver, Exec.bind_ok hcall]

/-- What a row of calls on the machine `m` makes of the definitions that are registered. -/
structure RowOnDefinitions (fuel : Nat) (receiver : Receiver) (first : Invocation)
    (further : List Invocation) (m : Machine) : Prop where
  /-- A definition is registered as before, unless a statement on this table has registered one in
  its place, or its name is one of those made up since. -/
  kept : ∀ {name d}, m.boxes.get? name = some d →
    (eval (fuel + 1) (.method receiver first further) m).machine.boxes.get? name = some d ∨
      Happens (fun n there => there.context.boxes = m.context.boxes ∧
        ∃ whole, n.Registers there name whole) (fuel + 1) (· (.method receiver first further)) m ∨
      ∃ k, m.chained ≤ k ∧
        k < (eval (fuel + 1) (.method receiver first further) m).machine.chained ∧
        name = chainName k
  /-- If there is a call on the result of the first one, then nothing stands under the name that is
  made up for it, whatever stood there before. -/
  dropped : ∀ {o m₁}, further ≠ [] →
    (receiverInstance (eval fuel) receiver >>= fun h => callMethod (eval fuel) h first) m
      = ⟨.ok (.object o), m₁⟩ →
    (eval (fuel + 1) (.method receiver first further) m).machine.boxes.get? (chainName m₁.chained)
      = none

/-- **A row of calls takes away definitions under the names that it makes up, and no others.** -/
theorem row_on_definitions {m : Machine} (h : Reachable m) (fuel : Nat) (receiver : Receiver)
    (first : Invocation) (further : List Invocation) :
    RowOnDefinitions fuel receiver first further m := by
  have huse : m.registry.InUse := h.shaped.boxes
  constructor
  case kept =>
    intro name d hentry
    by_cases hscope : Throughout (fun n there => ¬(there.context.boxes = m.context.boxes ∧
        ∃ whole, n.Registers there name whole)) (fuel + 1) (· (.method receiver first further)) m
    · have L := Registry.stays_laws m.context.boxes name d
      rcases L.eval huse trivial hscope rfl hentry with hstill | hmade
      · exact .inl hstill
      · exact .inr (.inr hmade)
    · exact .inr (.inl hscope)
  case dropped =>
    intro o m₁ hfurther hfirst
    -- the row gives back the context, so the table at the end is the one in which names were
    -- dropped
    have hcontext := (depthContract_frames.moves_eval h.depth_le (fuel + 1)
      (anyNode (.method receiver first further))).restored.context
    have hrow : eval (fuel + 1) (.method receiver first further) m
        = chainFrom (eval fuel) m.context.boxes (.object o) further m₁ := callChain_of_first hfirst
    obtain ⟨call, calls, rfl⟩ := List.exists_cons_of_ne_nil hfurther
    have hdropped : ∃ m₂, (eval (fuel + 1) (.method receiver first (call :: calls)) m).machine
        = dropBox m.context.boxes (chainName m₁.chained) m₂ := by
      -- the definition made up for the second call is dropped, whether its copy can be made or not
      rcases chainFrom_cases m.context.boxes o call calls m₁ with ⟨e, hstep⟩ | hstep
      · exact ⟨_, congrArg Outcome.machine (hrow.trans (hstep _))⟩
      · exact ⟨_, congrArg Outcome.machine (hrow.trans (hstep _))⟩
    obtain ⟨m₂, hm₂⟩ := hdropped
    unfold Machine.boxes
    rw [hcontext, hm₂]
    exact get?_dropBox _ _ _

/-- A row of two calls on the cell takes away the definition of the cell, which has the first of the
made-up names. -/
theorem row_on_definitions_cell :
    (OneCell.machine.boxes.get? "anonymous_0").isSome = true ∧
      (eval 9 (.method (.named "b") ⟨"f", [.var "b"]⟩ [⟨"f", [.var "b"]⟩])
        OneCell.machine).machine.boxes.get? "anonymous_0" = none := by
  have hregistered : (OneCell.machine.boxes.get? "anonymous_0").isSome = true := by cbv
  have hfirst : ((receiverInstance (eval 8) (.named "b") >>= fun h =>
      callMethod (eval 8) h ⟨"f", [.var "b"]⟩) OneCell.machine).result = .ok (.object ⟨0⟩) := by
    cbv
  have hcounter : ((receiverInstance (eval 8) (.named "b") >>= fun h =>
      callMethod (eval 8) h ⟨"f", [.var "b"]⟩) OneCell.machine).machine.chained = 0 := by
    cbv
  generalize hrow : (receiverInstance (eval 8) (.named "b") >>= fun h =>
    callMethod (eval 8) h ⟨"f", [.var "b"]⟩) OneCell.machine = first at hfirst hcounter
  obtain ⟨result, m₁⟩ := first
  subst hfirst
  have hname : chainName m₁.chained = "anonymous_0" := by
    rw [show m₁.chained = 0 from hcounter]
    decide
  have D := row_on_definitions OneCell.reachable 8 (.named "b") ⟨"f", [.var "b"]⟩
    [⟨"f", [.var "b"]⟩]
  exact ⟨hregistered, hname ▸ D.dropped (List.cons_ne_nil _ _) hrow⟩

end BoxScript
