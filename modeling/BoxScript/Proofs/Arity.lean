import BoxScript.Proofs.Tables

/-!
# Arguments and parameters

A call looks for what it calls under a name and a number of arguments, and whatever is found there
runs on that many arguments. So the key has to say how many parameters there are. For a method it
does by definition; for a function it has to be kept up by all that goes on with the tables: they
are copied and merged with those of a script, and each call of a method gets one of its own from
those of its caller and its instance. An extension is found by its own number of parameters, less
one for the value that it is called on, so it has to have that one.

`Machine.Keyed` says so of all tables on the heap, and no step breaks it. Then the arguments of a
call are as many as the parameters, whatever comes of their evaluation (`callFunction_of_found`,
`callMethod_of_found`, `callExtension_of_declared`).
-/

namespace BoxScript

/-- Every function stands under its own signature, and every extension has a parameter for the value
that it is called on. -/
structure Machine.Keyed (m : Machine) : Prop where
  functions : m.heap.functions.EntriesIn fun signature r => r.signature = signature
  extensions : m.heap.extensions.EntriesIn fun _ e => e.routine.params ≠ []

/-! ## What is kept -/

/-- Functions stay under their signatures. -/
def keyContract : Contract where
  lax := False
  inv := Machine.Keyed
  rel _ _ := True

namespace Machine.Keyed

variable {m m' : Machine}

/-- A step that changes no table of functions or extensions. -/
theorem untouched (hm : m.Keyed) (hfunctions : m'.heap.functions = m.heap.functions)
    (hextensions : m'.heap.extensions = m.heap.extensions) : m'.Keyed where
  functions := by
    rw [hfunctions]
    exact hm.functions
  extensions := by
    rw [hextensions]
    exact hm.extensions

theorem declare (hm : m.Keyed) (routine : Routine) :
    (m.updateFunctions (·.insert routine.signature routine)).Keyed where
  functions := hm.functions.modify _ fun htable => htable.insert rfl
  extensions := hm.extensions

theorem extend (hm : m.Keyed) (name : String) {e : Extension} (he : e.routine.params ≠ []) :
    (m.updateExtensions (·.insert name e)).Keyed where
  functions := hm.functions
  extensions := hm.extensions.modify _ fun htable => htable.insert he

/-- The functions of a method are those of its caller and those of its instance. -/
theorem enterMethod (hm : m.Keyed) (h : Handle) (signature : Signature) (locals : Locals)
    (active : Nat) : (enterMethod h signature locals active m).Keyed where
  functions := hm.functions.push ((hm.functions _).insertAll fun _ _ => rfl)
  extensions := hm.extensions

theorem forked (hm : m.Keyed) : m.forked.Keyed where
  functions := hm.functions.push (hm.functions _)
  extensions := hm.extensions.push (hm.extensions _)

theorem merged (hm' : m'.Keyed) (m : Machine) : (m.merged m').Keyed where
  functions := hm'.functions.mergeCell _ _
  extensions := hm'.extensions.mergeCell _ _

end Machine.Keyed

/-- No step puts a function under another signature, or adds an extension without parameters. -/
theorem key_frames : keyContract.Frames AnyNode AnyNode where
  everywhere := ⟨fun _ _ => trivial, fun _ _ => trivial⟩
  fragment := anyNode_language.toFragment
  scripts {m} _ := anyNode_language.scriptsIn m
  code {m} _ := m.codeIn_any
  refl _ := trivial
  trans _ _ := trivial
  console _ hm := ⟨hm.untouched rfl rfl, trivial⟩
  assign _ _ _ moves := ⟨moves.inv.untouched rfl rfl, trivial⟩
  declare {_ routine} _ _ hm := ⟨hm.declare routine, trivial⟩
  register _ _ _ hm := ⟨hm.untouched rfl rfl, trivial⟩
  extend name _ he hm := ⟨hm.extend name he.receiver, trivial⟩
  allocate := by
    intro _ m _ d fields _ _ _ _ hm
    obtain ⟨methods, heap, grown, -, hmade⟩ := allocate_cases d fields m
    rw [hmade]
    exact ⟨hm.untouched grown.functions grown.extensions, trivial⟩
  setField _ _ _ hm := ⟨hm.untouched rfl rfl, trivial⟩
  linkIn _ hm := hm.untouched rfl rfl
  linkOut _ _ moves := ⟨moves.inv.untouched rfl rfl, trivial⟩
  linkRefused hm := ⟨hm.untouched rfl rfl, trivial⟩
  push _ hm := ⟨hm.untouched rfl rfl, trivial⟩
  dropSignal hm := ⟨hm.untouched rfl rfl, trivial⟩
  bindParams _ _ hm := ⟨hm.untouched rfl rfl, trivial⟩
  scopeIn _ hm := hm.untouched rfl rfl
  scopeOut _ _ moves := ⟨moves.inv.untouched rfl rfl, trivial⟩
  clauseIn hm := hm.untouched rfl rfl
  clauseOut _ moves := ⟨moves.inv.untouched rfl rfl, trivial⟩
  callIn hm _ := hm.untouched rfl rfl
  callOut _ _ moves := ⟨moves.inv.untouched rfl rfl, trivial⟩
  methodIn hm _ := hm.enterMethod _ _ _ _
  methodOut _ _ moves := ⟨moves.inv.untouched rfl rfl, trivial⟩
  fork hm := hm.forked
  merge _ moves := ⟨moves.inv.merged _, trivial⟩
  discard _ _ moves := ⟨moves.inv.untouched rfl rfl, trivial⟩

/-- **Wherever a session gets to, functions stand under their own signatures**, and extensions have
a parameter for the value that they are called on. -/
theorem Reachable.keyed {m : Machine} (h : Reachable m) : m.Keyed :=
  key_frames.inv_of_reachable anyNode_language id
    (fun _ _ => ⟨Pool.entriesIn_new, Pool.entriesIn_new⟩) (fun _ _ hm => hm.untouched rfl rfl) h

theorem Attained.keyed {m : Machine} (h : Attained m) : m.Keyed :=
  key_frames.inv_of_attained (fun _ => trivial) Reachable.keyed h

/-! ## Calls -/

section Calls

variable {ev : Evaluator} {m m' : Machine} {args : List Node} {values : List Value}

/-- There is a value for every argument. -/
theorem length_of_evalArgs (h : evalArgs ev args m = ⟨.ok values, m'⟩) :
    values.length = args.length := by
  have key : ∀ done m, evalArgsFrom ev done args m = ⟨.ok values, m'⟩ →
      values.length = done.length + args.length := by
    clear h
    induction args with
    | nil =>
      intro done m h
      cases h
      exact List.length_reverse
    | cons arg args ih =>
      intro done m h
      rw [Contract.evalArgsFrom_cons] at h
      obtain ⟨v, m₁, -, hrest⟩ := Exec.ok_of_bind h
      have hlength := ih (v :: done) m₁ hrest
      simp only [List.length_cons] at hlength ⊢
      omega
  simpa using key [] m h

/-- The call of a function that is there. -/
theorem callFunction_of_found {name : String} {r : Routine}
    (hfound : m.functions.get? ⟨name, args.length⟩ = some r) :
    callFunction ev name args m = (evalArgs ev args >>= invoke ev r) m := by
  simp only [callFunction, Exec.bind_apply, Exec.look, hfound]

/-- The call of a method that everyone may call. -/
theorem callMethod_of_found {h : Handle} {call : Invocation} {r : Routine} {locals : Locals}
    (hfound : (m.instanceAt h).method? call.signature = some (r, .exposed, locals)) :
    callMethod ev h call m = (evalArgs ev call.args >>= runMethod ev h r) m := by
  have hfound' : (m.instanceAt h).method? ⟨call.name, call.args.length⟩
      = some (r, .exposed, locals) := hfound
  simp only [callMethod, Exec.bind_apply, Exec.look, hfound']

/-- The call of an extension that the program declared, if there is a value to call it on. -/
theorem callExtension_of_declared {target : Node} {name : String} {receiver : Value} {m₁ : Machine}
    {e : Extension} (hreceiver : ev target m = ⟨.ok receiver, m₁⟩)
    (hvoid : receiver.isVoid = false) (htype : Text.toLower name ≠ "type")
    (hfound : declaredFor? (Text.toLower name) receiver args.length m₁ = some e) :
    callExtension ev target name args m
      = (evalArgs ev args >>= fun values => invoke ev e.routine (receiver :: values)) m₁ := by
  unfold callExtension
  rw [Exec.bind_ok hreceiver]
  simp only [hvoid, Bool.false_eq_true, if_false, htype, Exec.bind_apply, Exec.look, hfound]

/-- A method has as many parameters as its signature says. -/
theorem Instance.params_of_method {i : Instance} {signature : Signature} {r : Routine}
    {access : Access} {locals : Locals}
    (hfound : i.method? signature = some (r, access, locals)) :
    r.params.length = signature.arity :=
  congrArg Signature.arity (method?_eq_some hfound).2

namespace Machine.Keyed

/-- What is found under a name and a number has that many parameters. -/
theorem params_of_found (hm : m.Keyed) {name : String} {arity : Nat} {r : Routine}
    (hfound : m.functions.get? ⟨name, arity⟩ = some r) : r.params.length = arity :=
  congrArg Signature.arity (hm.functions _ _ r hfound)

/-- What is declared for a value and a number of arguments has one parameter more. -/
theorem params_of_declared (hm : m.Keyed) {name : String} {receiver : Value} {arity : Nat}
    {e : Extension} (hfound : declaredFor? name receiver arity m = some e) :
    e.routine.params.length = arity + 1 := by
  obtain ⟨hentry, hfits⟩ := Option.filter_eq_some_iff.1 hfound
  have harity : e.routine.params.length - 1 = arity :=
    of_decide_eq_true (Bool.and_eq_true_iff.1 hfits).2
  have hpositive := List.length_pos_iff.2 (hm.extensions _ _ e hentry)
  omega

end Machine.Keyed

end Calls

end BoxScript
