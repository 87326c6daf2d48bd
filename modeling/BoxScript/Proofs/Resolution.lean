import BoxScript.Proofs.Shapes

/-!
# The functions that a method finds

A method works on a table of functions of its own. It begins as the table of the caller with the
functions of the instance on top, and while the method runs only statements that declare functions
change it. So a bare name in the body stands for the instance's own function, or else for what it
stands for where the method was called (`functions_in_method`).

The caller may itself be a method. Then its table has the functions of its own instance, guarded
ones among them, and hands them on to the methods of any other instance that it calls.
-/

namespace BoxScript

/-! ## The table of a method -/

/-- The function that an instance has for a signature. -/
def Instance.routine? (i : Instance) (signature : Signature) : Option Routine :=
  (i.method? signature).map (·.1)

theorem Instance.routine?_eq_find? (i : Instance) (signature : Signature) :
    i.routine? signature = i.routines.find? fun r => r.signature = signature := by
  unfold routine? method? routines
  generalize i.slots = slots
  induction slots with
  | nil => rfl
  | cons slot slots ih =>
    cases slot with
    | field => exact ih
    | function routine access locals =>
      rw [List.findSome?_cons, List.filterMap_cons, List.find?_cons]
      by_cases hs : routine.signature = signature
      · simp only [Slot.asFunction?, hs, if_true, Option.map_some, decide_true]
      · simp only [Slot.asFunction?, hs, if_false, decide_false]
        exact ih

/-- Functions that are put into a table one after the other: the last one of a signature counts. -/
theorem get?_insertAll (routines : List Routine) (d : Functions) (signature : Signature) :
    (routines.foldl (fun d r => d.insert r.signature r) d).get? signature
      = (routines.reverse.find? fun r => r.signature = signature).or (d.get? signature) := by
  induction routines generalizing d with
  | nil => rfl
  | cons r routines ih =>
    rw [List.foldl_cons, ih, Dict.get?_insert, List.reverse_cons, List.find?_append]
    cases routines.reverse.find? fun r => r.signature = signature with
    | some found => rfl
    | none =>
      by_cases hs : signature = r.signature
      · simp [hs]
      · simp [hs, Ne.symm hs]

/-- Where no two functions have one signature, the last one of a signature is the first one. -/
theorem find?_reverse_of_nodup {routines : List Routine}
    (h : (routines.map (·.signature)).Nodup) (signature : Signature) :
    (routines.reverse.find? fun r => r.signature = signature)
      = routines.find? fun r => r.signature = signature := by
  induction routines with
  | nil => rfl
  | cons r routines ih =>
    obtain ⟨hnew, hrest⟩ := List.nodup_cons.1 h
    rw [List.reverse_cons, List.find?_append, ih hrest, List.find?_cons]
    by_cases hs : r.signature = signature
    · have hnone : (routines.find? fun r => r.signature = signature) = none := by
        refine List.find?_eq_none.2 fun r' hr' heq => hnew ?_
        show r.signature ∈ _
        rw [hs, ← of_decide_eq_true heq]
        exact List.mem_map_of_mem hr'
      simp [hs, hnone]
    · simp [hs]

theorem Instance.Regular.routines {i : Instance} (h : i.Regular) :
    (i.routines.map (·.signature)).Nodup := by
  have hsame : i.routines.map (·.signature) = i.slots.filterMap Slot.signature? := by
    unfold Instance.routines
    rw [List.map_filterMap]
    refine List.filterMap_congr fun slot _ => ?_
    cases slot <;> rfl
  rw [hsame]
  exact h.methods

/-- The table that a method of an instance begins with. -/
theorem functions_enterMethod (h : Handle) (signature : Signature) (locals : Locals) (level : Nat)
    (m : Machine) : (enterMethod h signature locals level m).functions
      = (m.instanceAt h).routines.foldl (fun d r => d.insert r.signature r) m.functions :=
  Pool.get_push_next _ _

/-- A method begins with the functions of its instance, and with those of its caller behind them. -/
theorem get?_enterMethod {m : Machine} {h : Handle} (hregular : (m.instanceAt h).Regular)
    (signature : Signature) (locals : Locals) (level : Nat) (s : Signature) :
    (enterMethod h signature locals level m).functions.get? s
      = ((m.instanceAt h).routine? s).or (m.functions.get? s) := by
  rw [functions_enterMethod, get?_insertAll, find?_reverse_of_nodup hregular.routines,
    Instance.routine?_eq_find?]

/-- Where an instance has no function of its own, its methods begin with that of the caller. -/
theorem get?_enterMethod_of_none {m : Machine} {h : Handle} {s : Signature}
    (hnone : (m.instanceAt h).routine? s = none) (signature : Signature) (locals : Locals)
    (level : Nat) :
    (enterMethod h signature locals level m).functions.get? s = m.functions.get? s := by
  rw [Instance.routine?_eq_find?, List.find?_eq_none] at hnone
  have hreverse : ((m.instanceAt h).routines.reverse.find? fun r => r.signature = s) = none :=
    List.find?_eq_none.2 fun r hr => hnone r (List.mem_reverse.1 hr)
  rw [functions_enterMethod, get?_insertAll, hreverse]
  rfl

/-! ## What stays in a table -/

/-- What the tables of functions say about a signature stays in `P` wherever it is, and for one of
the tables it is. -/
def entryContract (P : Option Routine → Prop) (s : Signature) (table : Handle) : Contract where
  lax := True
  inv m := table.index < m.heap.functions.size ∧ P ((m.heap.functions.get table).get? s)
  rel m m' := m.heap.functions.size ≤ m'.heap.functions.size ∧
    ∀ {h : Handle}, h.index < m.heap.functions.size → P ((m.heap.functions.get h).get? s) →
      P ((m'.heap.functions.get h).get? s)
  scope node _ := ∀ routine, node = .function routine → routine.signature = s → P (some routine)

section Entries

variable {P : Option Routine → Prop} {s : Signature} {table : Handle} {m m' entered left : Machine}

/-- No table is given up, so the relation carries the invariant along. -/
theorem entry_allows (hm : (entryContract P s table).inv m)
    (hrel : (entryContract P s table).rel m m') : (entryContract P s table).Allows m m' :=
  ⟨⟨Nat.lt_of_lt_of_le hm.1 hrel.1, hrel.2 hm.1 hm.2⟩, hrel⟩

theorem entry_untouched (hm : (entryContract P s table).inv m)
    (hsame : m'.heap.functions = m.heap.functions) : (entryContract P s table).Allows m m' := by
  refine entry_allows hm ⟨Nat.le_of_eq (by rw [hsame]), fun _ hP => ?_⟩
  rw [hsame]
  exact hP

/-- The way out of something that has the tables of its caller. -/
theorem entry_leaving (hm : (entryContract P s table).inv m)
    (moves : (entryContract P s table).Moves entered left)
    (hentered : entered.heap.functions = m.heap.functions)
    (hleft : m'.heap.functions = left.heap.functions) : (entryContract P s table).Allows m m' := by
  have hrel := moves.rel
  unfold entryContract at hrel
  dsimp only at hrel
  rw [hentered, ← hleft] at hrel
  exact entry_allows hm hrel

/-- A new table is no matter for those that are there. -/
theorem entry_rel_of_push {d : Functions} (moves : (entryContract P s table).Moves entered left)
    (hentered : entered.heap.functions = m.heap.functions.push d)
    (hleft : m'.heap.functions = left.heap.functions) : (entryContract P s table).rel m m' := by
  obtain ⟨hmore, hkept⟩ := moves.rel
  rw [hentered, Pool.size_push] at hmore
  refine ⟨?_, fun hh hP => ?_⟩
  · rw [hleft]
    exact Nat.le_of_succ_le hmore
  · rw [hleft]
    refine hkept ?_ ?_
    · rw [hentered, Pool.size_push]
      exact Nat.lt_succ_of_lt hh
    · rw [hentered, Pool.get_push_of_lt hh]
      exact hP

theorem entry_of_push (hm : (entryContract P s table).inv m) {d : Functions}
    (hentered : entered.heap.functions = m.heap.functions.push d) :
    (entryContract P s table).inv entered := by
  refine ⟨?_, ?_⟩
  · rw [hentered, Pool.size_push]
    exact Nat.lt_succ_of_lt hm.1
  · rw [hentered, Pool.get_push_of_lt hm.1]
    exact hm.2

end Entries

/-- Only statements that declare functions change what a table says about a signature. -/
theorem entry_rules (P : Option Routine → Prop) (s : Signature) (table : Handle) :
    (entryContract P s table).Rules AnyNode AnyNode where
  fragment := anyNode_language.toFragment
  scripts {m} _ := anyNode_language.scriptsIn m
  code {m} _ := m.codeIn_any
  named _ _ _ := trivial
  fresh _ _ := trivial
  refl _ := ⟨Nat.le_refl _, fun _ hP => hP⟩
  trans h h' := ⟨Nat.le_trans h.1 h'.1, fun hh hP => h'.2 (Nat.lt_of_lt_of_le hh h.1) (h.2 hh hP)⟩
  console _ hm := entry_untouched hm rfl
  assign _ _ _ moves := entry_untouched moves.inv rfl
  -- a table is changed by a declaration, and by the merge at the end of a script
  declare := by
    intro m routine hscope _ hm
    refine entry_allows hm ⟨Nat.le_of_eq (Pool.size_modify _ _ _).symm, fun {h} _ hP => ?_⟩
    show P (((m.heap.functions.modify _ _).get h).get? s)
    rcases Pool.get_modify_cases m.heap.functions m.context.functions
      (·.insert routine.signature routine) h with ⟨-, -, hget⟩ | hget <;> rw [hget]
    · rw [Dict.get?_insert]
      split
      -- the declaration is of this signature, so the scope says that it is in `P`
      · next hs => exact hscope routine rfl hs.symm
      · exact hP
    · exact hP
  register _ _ _ hm := entry_untouched hm rfl
  extend _ _ _ hm := entry_untouched hm rfl
  allocate := by
    intro _ m _ d fields _ _ _ _ hm
    obtain ⟨methods, heap, grown, -, hmade⟩ := allocate_cases d fields m
    refine entry_untouched hm ?_
    rw [hmade]
    exact grown.functions
  setField _ _ _ hm := entry_untouched hm rfl
  linkIn _ hm := hm
  linkOut _ hm moves := entry_leaving hm moves rfl rfl
  linkRefused hm := entry_untouched hm rfl
  push _ hm := entry_untouched hm rfl
  dropSignal hm := entry_untouched hm rfl
  bindParams _ _ hm := entry_untouched hm rfl
  scopeIn _ hm := hm
  scopeOut _ hm moves := entry_leaving hm moves rfl rfl
  clauseIn hm := hm
  clauseOut hm moves := entry_leaving hm moves rfl rfl
  callIn hm _ := hm
  callOut hm _ moves := entry_leaving hm moves rfl rfl
  enters _ :=
    { methodIn := fun hm _ => entry_of_push hm rfl
      methodOut := fun hm _ moves => entry_allows hm (entry_rel_of_push moves rfl rfl) }
  fork hm := entry_of_push hm rfl
  merge := by
    intro m sub hm moves
    have hfork := moves.rel
    have himported : (entryContract P s table).rel m sub := entry_rel_of_push moves rfl rfl
    obtain ⟨hmore, hkept⟩ := himported
    refine entry_allows hm ⟨?_, fun {h} hh hP => ?_⟩
    · show _ ≤ (Context.mergeCell _ _ _ sub.heap.functions).size
      rw [Machine.Formed.size_mergeCell]
      exact hmore
    -- in the caller's table the script's entries come first; the other tables are those of the
    -- script
    · show P
        (((Context.mergeCell Dict.union m.context.functions _ sub.heap.functions).get h).get? s)
      unfold Context.mergeCell
      split
      · exact hkept hh hP
      · rcases Pool.get_modify_cases sub.heap.functions m.context.functions _ h with
          ⟨rfl, -, hget⟩ | hget <;> rw [hget]
        · -- the script has begun with a copy of the table
          have hsub : P ((sub.heap.functions.get sub.context.functions).get? s) := by
            rw [moves.restored.context]
            refine hfork.2 ?_ ?_
            · show m.heap.functions.size < (m.heap.functions.push _).size
              rw [Pool.size_push]
              omega
            · show P (((m.heap.functions.push _).get m.heap.functions.next).get? s)
              rw [Pool.get_push_next]
              exact hP
          rw [Dict.get?_union]
          cases hentry : (sub.heap.functions.get m.context.functions).get? s with
          | none => exact hsub
          | some routine =>
            have hown := hkept hh hP
            rwa [hentry] at hown
        · exact hkept hh hP
  discard _ hm moves := entry_allows hm (entry_rel_of_push moves rfl rfl)

/-! ## Bare names in the body of a method -/

/-- The node is a statement that declares a function of the signature. -/
def Node.Declares (node : Node) (s : Signature) : Prop :=
  ∃ routine, node = .function routine ∧ routine.signature = s

/-- While a method runs, its table stays in what it began with and what is declared. -/
theorem throughout_entry {P : Option Routine → Prop} {s : Signature} {m : Machine} {b : Handle}
    (hregular : (m.instanceAt b).Regular)
    (hstart : P (((m.instanceAt b).routine? s).or (m.functions.get? s))) {fuel : Nat}
    {routine : Routine} {args : List Value}
    (hscope : Throughout (fun n _ => ∀ r, n = .function r → r.signature = s → P (some r)) fuel
      (runMethod · b routine args) m)
    (hends : (runMethod (eval fuel) b routine args m).result ≠ .unfinished) :
    Throughout (fun _ there => there.context.functions = m.heap.functions.next →
      P (there.functions.get? s)) fuel (runMethod · b routine args) m := by
  rcases runMethod_cases b routine args m with ⟨e, hfails⟩ | ⟨r, access, locals, -, -, hruns⟩
  · exact fun other => (hfails _).trans (hfails _).symm
  · let C := entryContract P s m.heap.functions.next
    have F : C.Rules AnyNode AnyNode := entry_rules P s _
    have hentered : C.inv (m.entered b routine.signature locals) := by
      refine ⟨?_, ?_⟩
      · show m.heap.functions.size < (m.heap.functions.push _).size
        rw [Pool.size_push]
        omega
      · show P ((enterMethod b _ _ _ m.deeper).functions.get? s)
        rw [get?_enterMethod (m := m.deeper) hregular]
        exact hstart
    have hlifts := Contract.lifts_runMethod F.toGround (fun n _ => anyNode n) hruns hentered
      fun left moves => ⟨?_, entry_rel_of_push moves rfl rfl⟩
    · refine F.throughout_of_throughout trivial hlifts hscope hends ?_
      rintro node there - - hinv htable
      unfold Machine.functions
      rw [htable]
      exact hinv.2
    · exact moves.inv

/-- What a call of a method of the instance `b` on the machine `m` finds under the bare names of
functions. A call of a function looks it up in the table of the machine on which it is evaluated,
and the table of the method is the next new one. -/
structure FunctionsInMethod (fuel : Nat) (b : Handle) (routine : Routine) (args : List Value)
    (m : Machine) : Prop where
  /-- If none is declared meanwhile, it is the function of the instance, or else what the caller
  finds. -/
  settled : ∀ {s}, ¬Happens (fun n _ => n.Declares s) fuel (runMethod · b routine args) m →
    Throughout (fun _ there => there.context.functions = m.heap.functions.next →
      there.functions.get? s = ((m.instanceAt b).routine? s).or (m.functions.get? s)) fuel
      (runMethod · b routine args) m
  /-- In any case, a function that is found is the one from the beginning, or a statement has
  declared it meanwhile. -/
  found : ∀ {s r}, ¬Happens (fun n _ => n = .function r) fuel (runMethod · b routine args) m →
    Throughout (fun _ there => there.context.functions = m.heap.functions.next →
      there.functions.get? s = some r →
        ((m.instanceAt b).routine? s).or (m.functions.get? s) = some r) fuel
      (runMethod · b routine args) m
  /-- A function of the instance, whoever may call it, is also what the methods of all other
  instances begin with that have none of their own and are called from there. -/
  handedOn : ∀ {s r}, (m.instanceAt b).routine? s = some r →
    ¬Happens (fun n _ => n.Declares s) fuel (runMethod · b routine args) m →
    Throughout (fun _ there => there.context.functions = m.heap.functions.next →
      ∀ other signature locals, (there.instanceAt other).routine? s = none →
        (there.entered other signature locals).functions.get? s = some r) fuel
      (runMethod · b routine args) m

/-- **A method finds the functions of its instance, and else those of its caller**, to whichever
instance these belong. -/
theorem functions_in_method {m : Machine} (h : Attained m) {fuel : Nat} {b : Handle}
    {routine : Routine} {args : List Value}
    (hends : (runMethod (eval fuel) b routine args m).result ≠ .unfinished) :
    FunctionsInMethod fuel b routine args m := by
  have hregular := h.shaped.instances b
  have settled : ∀ {s}, ¬Happens (fun n _ => n.Declares s) fuel (runMethod · b routine args) m →
      Throughout (fun _ there => there.context.functions = m.heap.functions.next →
        there.functions.get? s = ((m.instanceAt b).routine? s).or (m.functions.get? s)) fuel
        (runMethod · b routine args) m := by
    intro s hnone
    -- the property to carry along is that the entry is this one, which only a declaration changes
    refine throughout_entry (P := (· = ((m.instanceAt b).routine? s).or (m.functions.get? s)))
      hregular rfl ((not_not.1 hnone).mono ?_) hends
    exact fun n _ hn r hr hs => absurd ⟨r, hr, hs⟩ hn
  constructor
  case settled => exact settled
  case found =>
    -- here the declarations of other functions are harmless, so the property is about `r` alone
    intro s r hnone
    refine throughout_entry (P := fun found => found = some r →
      ((m.instanceAt b).routine? s).or (m.functions.get? s) = some r) hregular id
      ((not_not.1 hnone).mono ?_) hends
    intro n _ hn r' hr' _ heq
    cases heq
    exact absurd hr' hn
  case handedOn =>
    intro s r hown hnone
    refine (settled hnone).mono fun n there hthere htable other signature locals hother => ?_
    show (enterMethod other _ _ _ there.deeper).functions.get? s = some r
    rw [get?_enterMethod_of_none (m := there.deeper) hother]
    show there.functions.get? s = some r
    rw [hthere htable, hown]
    rfl

-- a guarded function of one instance, called by its bare name in a method of another one
example :
    (eval 12 (.method (.named "a") ⟨"go", [.var "b"]⟩ [])
      (runProgram (eval 12)
        [.box ⟨"A", none, false, false, [],
            [⟨⟨"secret", [], [.giveBack (some (.int 42))]⟩, .guarded, false⟩,
              ⟨⟨"go", ["b"], [.giveBack (some (.method (.named "b") ⟨"peek", []⟩ []))]⟩,
                .exposed, false⟩]⟩,
          .box ⟨"B", none, false, false, [],
            [⟨⟨"peek", [], [.giveBack (some (.call "secret" []))]⟩, .exposed, false⟩]⟩,
          .assign "a" (.create "A"), .assign "b" (.create "B")]
        (.new .empty (.ofBytes []))).machine).result = .ok (.int 42) := by cbv

/-- A call of the method of the cell hands the method on to all instances that have no such one. -/
theorem functions_in_method_cell :
    (runMethod (eval 5) ⟨0⟩ OneCell.put [.object ⟨0⟩] OneCell.machine).result = .ok (.object ⟨0⟩) ∧
      Throughout (fun _ there => there.context.functions = OneCell.machine.heap.functions.next →
        ∀ other signature locals, (there.instanceAt other).routine? ⟨"f", 1⟩ = none →
          (there.entered other signature locals).functions.get? ⟨"f", 1⟩ = some OneCell.put) 5
        (runMethod · ⟨0⟩ OneCell.put [.object ⟨0⟩]) OneCell.machine := by
  have hvalue : (runMethod (eval 5) ⟨0⟩ OneCell.put [.object ⟨0⟩] OneCell.machine).result
      = .ok (.object ⟨0⟩) := rfl
  have F : FunctionsInMethod 5 ⟨0⟩ OneCell.put [.object ⟨0⟩] OneCell.machine :=
    functions_in_method (.reachable OneCell.reachable) fun hends => by
      cases hvalue.symm.trans hends
  refine ⟨hvalue, F.handedOn rfl (not_not_intro ?_)⟩
  exact OneCell.throughout_put (fun _ => nofun) (fun _ => nofun) (fun _ => nofun) 3 _ _ _

end BoxScript
