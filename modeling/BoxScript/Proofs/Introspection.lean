import BoxScript.Proofs.Copies

/-!
# What an instance says about its members

A program can ask an instance whether it has a field or a function, and whether guarded members
count. The answer comes from a list of the members that are seen, while a use of a member looks for
the first slot that fits. Both agree, since no two fields of an instance have the same name, and no
two functions the same signature: the slot that is found first is then the only one that fits.

A field that is found can be read at once. A function that is found is still to be called, and the
call may fail in its arguments or in the body for any reason, also for a member of some other
instance that is guarded. What the answer is about is whether the call gets that far.
-/

namespace BoxScript

/-! ## The first slot that fits, and all that are seen -/

/-- With no key there twice, a key is among those that are seen if the first slot that has it is
seen. A `part` is what a look-up gives of the slot that has the key. -/
theorem mem_visible_iff {κ β : Type} {key : Slot → Option κ} {k : κ} {part : Slot → Option β}
    {access : β → Access} {slots : List Slot} (h : (slots.filterMap key).Nodup)
    (hpart : ∀ {slot b}, part slot = some b → key slot = some k ∧ slot.access = access b)
    (hkey : ∀ {slot}, key slot = some k → (part slot).isSome) (guardedToo : Bool) :
    k ∈ (slots.filter (·.visible guardedToo)).filterMap key
      ↔ ∃ b, slots.findSome? part = some b ∧ (guardedToo = true ∨ access b = .exposed) := by
  have hvisible : ∀ slot : Slot, slot.visible guardedToo = true
      ↔ guardedToo = true ∨ slot.access = .exposed := by
    intro slot
    simp only [Slot.visible, Bool.or_eq_true, decide_eq_true_eq]
  rw [List.mem_filterMap]
  constructor
  · rintro ⟨slot, hslot, hk⟩
    obtain ⟨hmem, hseen⟩ := List.mem_filter.1 hslot
    obtain ⟨b, hfound⟩ := Option.isSome_iff_exists.1
      (List.findSome?_isSome_iff.2 ⟨slot, hmem, hkey hk⟩)
    obtain ⟨first, hfirst, hb⟩ := List.exists_of_findSome?_eq_some hfound
    obtain ⟨hk', haccess⟩ := hpart hb
    -- the first slot that fits is the only one
    cases eq_of_nodup_filterMap h hmem hfirst hk hk'
    exact ⟨b, hfound, haccess ▸ (hvisible slot).1 hseen⟩
  · rintro ⟨b, hfound, hseen⟩
    obtain ⟨first, hfirst, hb⟩ := List.exists_of_findSome?_eq_some hfound
    obtain ⟨hk, haccess⟩ := hpart hb
    exact ⟨first, List.mem_filter.2 ⟨hfirst, (hvisible first).2 (haccess ▸ hseen)⟩, hk⟩

namespace Instance.Regular

variable {i : Instance} (hi : i.Regular)

include hi

theorem mem_fieldNames_iff (f : String) (guardedToo : Bool) : f ∈ i.fieldNames guardedToo
    ↔ ∃ found, i.field? f = some found ∧ (guardedToo = true ∨ found.2 = .exposed) := by
  refine mem_visible_iff hi.fields (fun {slot b} hb => ?_) (fun {slot} hk => ?_) guardedToo
  · cases slot with
    | function => cases hb
    | field name value access =>
      obtain ⟨hname, hvalue⟩ := Option.ite_none_right_eq_some.1 hb
      cases hvalue
      exact ⟨congrArg some hname, rfl⟩
  · cases slot with
    | function => cases hk
    | field name value access =>
      cases hk
      exact congrArg Option.isSome (if_pos rfl)

theorem mem_signatures_iff (s : Signature) (guardedToo : Bool) : s ∈ i.signatures guardedToo
    ↔ ∃ found, i.method? s = some found ∧ (guardedToo = true ∨ found.2.1 = .exposed) := by
  refine mem_visible_iff hi.methods (fun {slot b} hb => ?_) (fun {slot} hk => ?_) guardedToo
  · cases slot with
    | field => cases hb
    | function routine access locals =>
      obtain ⟨hsignature, hfound⟩ := Option.ite_none_right_eq_some.1 hb
      cases hfound
      exact ⟨congrArg some hsignature, rfl⟩
  · cases slot with
    | field => cases hk
    | function routine access locals =>
      cases hk
      exact congrArg Option.isSome (if_pos rfl)

end Instance.Regular

/-! ## Questions -/

/-- The built-in extension `name` of the instance `h` answers with an integer, and changes
nothing. -/
def Machine.Says (m : Machine) (h : Handle) (name : String) (args : List Value) (n : Int64) :
    Prop :=
  callBuiltin name (.object h) args m = ⟨.ok (.int n), m⟩

section Answers

variable {m : Machine} {h : Handle} {name : String} {args : List Value} {b : Bool}

theorem Machine.says_iff (hb : callBuiltin name (.object h) args m = ⟨.ok (.ofBool b), m⟩)
    (n : Int64) : m.Says h name args n ↔ (if b then 1 else 0) = n := by
  unfold Says
  rw [hb]
  constructor
  · intro hsays
    cases hsays
    rfl
  · intro hn
    rw [← hn]
    rfl

/-- An answer of one means yes. -/
theorem Machine.says_one_iff (hb : callBuiltin name (.object h) args m = ⟨.ok (.ofBool b), m⟩) :
    m.Says h name args 1 ↔ b = true :=
  (says_iff hb 1).trans (by cases b <;> decide)

/-- An answer of zero means no. -/
theorem Machine.says_zero_iff (hb : callBuiltin name (.object h) args m = ⟨.ok (.ofBool b), m⟩) :
    m.Says h name args 0 ↔ ¬b = true :=
  (says_iff hb 0).trans (by cases b <;> decide)

end Answers

/-- What a question about a field is answered with. -/
theorem callBuiltin_hasField (h : Handle) (f : String) (m : Machine) :
    callBuiltin "hasfield" (.object h) [.str f] m
        = ⟨.ok (.ofBool (((m.instanceAt h).fieldNames false).contains f)), m⟩ ∧
      callBuiltin "hasfield" (.object h) [.str f, .int 1] m
        = ⟨.ok (.ofBool (((m.instanceAt h).fieldNames true).contains f)), m⟩ :=
  ⟨rfl, rfl⟩

/-- Whether a signature is one that a question about a function is about. -/
theorem any_signature_iff {signatures : List Signature} {f : String} {arity : Nat} {n : Int64}
    (hn : (arity : Int) = n.toInt) :
    (signatures.any fun s => s.name == f && (s.arity : Int) == n.toInt) = true
      ↔ ⟨f, arity⟩ ∈ signatures := by
  rw [List.any_eq_true, ← hn]
  constructor
  · rintro ⟨⟨name, k⟩, hmem, hs⟩
    obtain ⟨hname, hk⟩ := Bool.and_eq_true_iff.1 hs
    cases eq_of_beq hname
    cases Int.ofNat_inj.1 (eq_of_beq hk)
    exact hmem
  · intro hmem
    exact ⟨_, hmem, Bool.and_eq_true_iff.2 ⟨beq_self_eq_true f, beq_self_eq_true (arity : Int)⟩⟩

/-- No function has a negative number of parameters. -/
theorem not_any_signature_of_neg {signatures : List Signature} {f : String} {n : Int64}
    (hn : n.toInt < 0) :
    ¬(signatures.any fun s => s.name == f && (s.arity : Int) == n.toInt) = true := by
  rw [List.any_eq_true]
  rintro ⟨s, -, hs⟩
  have harity : (s.arity : Int) = n.toInt := eq_of_beq (Bool.and_eq_true_iff.1 hs).2
  omega

/-- What a question about a function is answered with. -/
theorem callBuiltin_hasFunction (h : Handle) (f : String) (n : Int64) (m : Machine) :
    callBuiltin "hasfunction" (.object h) [.str f, .int n] m
        = ⟨.ok (.ofBool (((m.instanceAt h).signatures true).any fun s =>
            s.name == f && (s.arity : Int) == n.toInt)), m⟩ ∧
      callBuiltin "hasfunction" (.object h) [.str f, .int n, .int 0] m
        = ⟨.ok (.ofBool (((m.instanceAt h).signatures false).any fun s =>
            s.name == f && (s.arity : Int) == n.toInt)), m⟩ :=
  ⟨rfl, rfl⟩

/-! ## Uses of members -/

/-- The variable `p` holds the instance `h`. -/
def Machine.Holds (m : Machine) (p : String) (h : Handle) : Prop :=
  m.scopes.lookup p m.context.level = some (.object h)

/-- A node fails by itself, with any evaluator for the nodes below it: none of them is evaluated. So
`eval` fails alike with any fuel. -/
def Machine.FailsAtOnce (m : Machine) (kind : ErrorKind) (node : Node) : Prop :=
  ∃ e : RuntimeError, e.kind = kind ∧ ∀ ev fuel, evalNode ev fuel node m = ⟨.error e, m⟩

/-- The slot that a call on the variable `p` looks up is there and exposed, so the call goes on to
evaluate its arguments and to run the function of the slot. -/
def Machine.Admits (m : Machine) (p : String) (h : Handle) (call : Invocation) : Prop :=
  ∃ routine locals, (m.instanceAt h).method? call.signature = some (routine, .exposed, locals) ∧
    ∀ ev fuel, evalNode ev fuel (.method (.named p) call []) m
      = (evalArgs ev call.args >>= runMethod ev h routine) m

theorem Exec.look_apply {α : Type} (f : Machine → α) (m : Machine) :
    Exec.look f m = ⟨.ok (f m), m⟩ := rfl

namespace Machine.Holds

variable {m : Machine} {p : String} {h : Handle} (hp : m.Holds p h)

include hp

theorem lookupVariable_eq : lookupVariable p m = ⟨.ok (.object h), m⟩ := by
  unfold lookupVariable Scopes.get
  rw [hp]
  rfl

theorem instanceIn_eq : instanceIn p m = ⟨.ok h, m⟩ := Exec.bind_ok hp.lookupVariable_eq

/-- A read gives the value of the field, or says why there is none. -/
theorem eval_field (fuel : Nat) (f : String) :
    eval (fuel + 1) (.field p f) m = match (m.instanceAt h).field? f with
      | some (value, .exposed) => ⟨.ok value, m⟩
      | some (_, .guarded) => ⟨.error (.fieldReadDenied f), m⟩
      | none => ⟨.error (.undefinedField f (m.instanceAt h).box), m⟩ := by
  refine (Exec.bind_ok hp.instanceIn_eq).trans ((Exec.bind_ok (Exec.look_apply _ m)).trans ?_)
  rcases (m.instanceAt h).field? f with _ | ⟨value, _ | _⟩ <;> rfl

/-- A write goes on with the value, or says why it cannot. -/
theorem eval_setField (fuel : Nat) (f : String) (e : Node) :
    eval (fuel + 1) (.setField p f e) m = match (m.instanceAt h).field? f with
      | some (_, .exposed) => ((eval fuel e : Exec Value) >>= fun v =>
          Exec.update (·.updateInstance h (·.setField f v)) >>= fun _ => pure Value.void) m
      | some (_, .guarded) => ⟨.error (.fieldWriteDenied f), m⟩
      | none => ⟨.error (.undefinedField f (m.instanceAt h).box), m⟩ := by
  let ev : Evaluator := eval fuel
  show (writeField ev p f e >>= fun _ => pure Value.void : Exec Value) m = _
  unfold writeField
  rw [bind_assoc, Exec.bind_ok hp.instanceIn_eq, bind_assoc,
    Exec.bind_ok (Exec.look_apply _ m)]
  rcases (m.instanceAt h).field? f with _ | ⟨value, _ | _⟩
  · rfl
  · exact congrArg (fun x : Exec Value => x m) (bind_assoc _ _ _)
  · rfl

/-- A call goes on with the function, or says why it cannot. -/
theorem evalNode_method (ev : Evaluator) (fuel : Nat) (call : Invocation) :
    evalNode ev fuel (.method (.named p) call []) m
      = match (m.instanceAt h).method? call.signature with
        | some (routine, .exposed, _) => (evalArgs ev call.args >>= runMethod ev h routine) m
        | some (_, .guarded, _) => ⟨.error (.callDenied call.name), m⟩
        | none => ⟨.error (.undefinedFunction call.signature), m⟩ := by
  show (instanceIn p >>= fun o => callMethod ev o call >>= fun v => pure v : Exec Value) m = _
  rw [Exec.bind_ok hp.instanceIn_eq, bind_pure]
  refine (Exec.bind_ok (Exec.look_apply _ m)).trans ?_
  unfold Invocation.signature
  rcases (m.instanceAt h).method? ⟨call.name, call.args.length⟩ with _ | ⟨routine, _ | _, locals⟩
    <;> rfl

/-- A call is admitted if and only if there is an exposed function for it. -/
theorem admits_iff {call : Invocation} : m.Admits p h call
    ↔ ∃ routine locals,
      (m.instanceAt h).method? call.signature = some (routine, .exposed, locals) := by
  constructor
  · rintro ⟨routine, locals, hfound, -⟩
    exact ⟨routine, locals, hfound⟩
  · rintro ⟨routine, locals, hfound⟩
    refine ⟨routine, locals, hfound, fun ev fuel => ?_⟩
    rw [hp.evalNode_method, hfound]

end Machine.Holds

/-! ## Admitted calls -/

/-- If nothing below it can be evaluated, a call that is admitted fails only for want of room for a
further call or of a statement to run. -/
theorem kind_of_unevaluated {m : Machine} {h : Handle} {call : Invocation} {routine : Routine}
    {access : Access} {locals : Locals}
    (hfound : (m.instanceAt h).method? call.signature = some (routine, access, locals))
    {e : RuntimeError} {m' : Machine}
    (hfails : (evalArgs (fun _ => Exec.unfinished) call.args
      >>= runMethod (fun _ => Exec.unfinished) h routine) m = ⟨.error e, m'⟩) :
    e.kind = .stackOverflow ∨ e.kind = .missingReturn := by
  obtain ⟨name, args⟩ := call
  cases args with
  | cons arg args => cases hfails
  | nil =>
    -- without arguments the call comes at once to its depth and then to the body
    have hsignature : routine.signature = ⟨name, 0⟩ := (Instance.method?_eq_some hfound).2
    have hlength : ([] : List Value).length = routine.params.length :=
      (congrArg Signature.arity hsignature).symm
    replace hfails : runMethod (fun _ => Exec.unfinished) h routine [] m = ⟨.error e, m'⟩ := hfails
    by_cases hdeep : maxCallDepth ≤ m.depth
    · rw [show runMethod _ h routine [] m = ⟨.error .stackOverflow, m⟩ from if_pos hdeep] at hfails
      cases hfails
      exact .inl rfl
    · have hslot : (m.instanceAt h).method? routine.signature = some (routine, access, locals) :=
        hsignature ▸ hfound
      rw [runMethod_of_found (Nat.not_le.1 hdeep) hslot] at hfails
      have hbody : (runBody (fun _ => Exec.unfinished) routine []
          (m.entered h routine.signature locals)).result = .error e :=
        congrArg Outcome.result hfails
      rw [runBody_of_length hlength] at hbody
      cases hstatements : routine.body with
      | cons node nodes =>
        rw [hstatements] at hbody
        cases hbody
      | nil =>
        rw [hstatements] at hbody
        cases hbody
        exact .inr rfl

/-- What is admitted does not fail at once, unless calls are too deep or nothing is given back. -/
theorem Machine.Admits.not_failsAtOnce {m : Machine} {p : String} {h : Handle} {call : Invocation}
    {kind : ErrorKind} (hadmits : m.Admits p h call) (hdeep : kind ≠ .stackOverflow)
    (hreturn : kind ≠ .missingReturn) : ¬m.FailsAtOnce kind (.method (.named p) call []) := by
  rintro ⟨e, rfl, hfails⟩
  obtain ⟨routine, locals, hfound, hgoesOn⟩ := hadmits
  have hunevaluated := hfails (fun _ => Exec.unfinished) 0
  rw [hgoesOn] at hunevaluated
  exact (kind_of_unevaluated hfound hunevaluated).elim hdeep hreturn

/-- What fails at once whatever its parts do fails with its own error. -/
theorem Machine.failsAtOnce_of_error {m : Machine} {node : Node} {e : RuntimeError}
    (h : ∀ ev fuel, evalNode ev fuel node m = ⟨.error e, m⟩) (kind : ErrorKind) :
    m.FailsAtOnce kind node ↔ e.kind = kind := by
  constructor
  · rintro ⟨e', rfl, hfails⟩
    have hsame := (h (fun _ => Exec.unfinished) 0).symm.trans (hfails _ _)
    cases hsame
    rfl
  · intro hkind
    exact ⟨e, hkind, h⟩

/-- **The look-up of its slot decides how a call fails at once.** The kinds that are left out are
those of a call for which there is no room, or nothing to run. -/
theorem Machine.Holds.failsAtOnce_iff {m : Machine} {p : String} {h : Handle} (hp : m.Holds p h)
    (kind : ErrorKind) (hdeep : kind ≠ .stackOverflow) (hreturn : kind ≠ .missingReturn)
    (call : Invocation) : m.FailsAtOnce kind (.method (.named p) call [])
      ↔ match (m.instanceAt h).method? call.signature with
        | some (_, .exposed, _) => False
        | some (_, .guarded, _) => .accessDenied = kind
        | none => .undefinedFunction = kind := by
  rcases hfound : (m.instanceAt h).method? call.signature with _ | ⟨routine, _ | _, locals⟩
  · refine failsAtOnce_of_error (e := .undefinedFunction call.signature) (fun ev fuel => ?_) kind
    rw [hp.evalNode_method, hfound]
  · have hadmits : m.Admits p h call := hp.admits_iff.2 ⟨routine, locals, hfound⟩
    exact iff_of_false (hadmits.not_failsAtOnce hdeep hreturn) id
  · refine failsAtOnce_of_error (e := .callDenied call.name) (fun ev fuel => ?_) kind
    rw [hp.evalNode_method, hfound]

/-! ## Questions agree with uses -/

/-- A node fails with an error of a kind, and nothing has changed. -/
def Machine.FailsWith (m : Machine) (kind : ErrorKind) (fuel : Nat) (node : Node) : Prop :=
  ∃ e : RuntimeError, e.kind = kind ∧ eval (fuel + 1) node m = ⟨.error e, m⟩

/-- What the instance `h`, which the variable `p` holds, says about its members is what comes of
their use. A call that is let through can still fail in an argument or in the body, so a call is
refused if it fails at once. -/
structure IntrospectionAgrees (m : Machine) (p : String) (h : Handle) : Prop where
  /-- A question on the variable is answered by the built-in extension, in whatever case its name is
  written, unless the program has declared another one. -/
  asked : ∀ {name args values} {fuel : Nat}, Text.toLower name ≠ "type" →
    declaredFor? (Text.toLower name) (.object h) args.length m = none →
    evalArgs (eval (fuel + 1)) args m = ⟨.ok values, m⟩ →
    eval (fuel + 2) (.extension (.var p) name args) m
      = callBuiltin (Text.toLower name) (.object h) values m
  /-- A read changes nothing, whatever comes of it. -/
  harmless : ∀ f fuel, (eval (fuel + 1) (.field p f) m).machine = m
  readable : ∀ f fuel, m.Says h "hasfield" [.str f] 1
    ↔ ∃ v, eval (fuel + 1) (.field p f) m = ⟨.ok v, m⟩
  /-- A field is there but guarded if neither a read nor a write is allowed. -/
  guarded : ∀ f e fuel, m.Says h "hasfield" [.str f, .int 1] 1 ∧ m.Says h "hasfield" [.str f] 0
    ↔ m.FailsWith .accessDenied fuel (.field p f)
      ∧ m.FailsWith .accessDenied fuel (.setField p f e)
  /-- A field is not there if it is unknown to a read and to a write. Such an error is one of the
  kind `undefinedVariable`. -/
  unknown : ∀ f e fuel, m.Says h "hasfield" [.str f, .int 1] 0
    ↔ eval (fuel + 1) (.field p f) m = ⟨.error (.undefinedField f (m.instanceAt h).box), m⟩
      ∧ eval (fuel + 1) (.setField p f e) m
        = ⟨.error (.undefinedField f (m.instanceAt h).box), m⟩
  /-- The exposed functions are those on which a call goes on. -/
  callable : ∀ f args (n : Int64), (args.length : Int) = n.toInt →
    (m.Says h "hasfunction" [.str f, .int n, .int 0] 1 ↔ m.Admits p h ⟨f, args⟩)
  guardedCall : ∀ f args (n : Int64), (args.length : Int) = n.toInt →
    (m.Says h "hasfunction" [.str f, .int n, .int 0] 0
        ∧ m.Says h "hasfunction" [.str f, .int n] 1
      ↔ m.FailsAtOnce .accessDenied (.method (.named p) ⟨f, args⟩ []))
  unknownCall : ∀ f args (n : Int64), (args.length : Int) = n.toInt →
    (m.Says h "hasfunction" [.str f, .int n] 0
      ↔ m.FailsAtOnce .undefinedFunction (.method (.named p) ⟨f, args⟩ []))
  /-- A function with a number of parameters that no call can have arguments for is not there. -/
  negative : ∀ f (n : Int64), n.toInt < 0 → m.Says h "hasfunction" [.str f, .int n] 0
    ∧ m.Says h "hasfunction" [.str f, .int n, .int 0] 0

/-- A question that no extension answers is answered by the instance. -/
theorem Machine.Holds.eval_extension {m : Machine} {p : String} {h : Handle} (hp : m.Holds p h)
    {name : String} {args : List Node} {values : List Value} {fuel : Nat}
    (htype : Text.toLower name ≠ "type")
    (hbuiltin : declaredFor? (Text.toLower name) (.object h) args.length m = none)
    (hargs : evalArgs (eval (fuel + 1)) args m = ⟨.ok values, m⟩) :
    eval (fuel + 2) (.extension (.var p) name args) m
      = callBuiltin (Text.toLower name) (.object h) values m := by
  show callExtension (eval (fuel + 1)) (.var p) name args m = _
  unfold callExtension
  have htarget : eval (fuel + 1) (.var p) m = ⟨.ok (.object h), m⟩ := hp.lookupVariable_eq
  rw [Exec.bind_ok htarget]
  show (if Text.toLower name = "type" then _ else _ : Exec Value) m = _
  rw [if_neg htype, Exec.bind_ok (Exec.look_apply _ m), hbuiltin]
  exact Exec.bind_ok hargs

/-- **What an instance says about its members agrees with what may be done with them.** -/
theorem introspection_agrees {m : Machine} (hm : Attained m) {p : String} {h : Handle}
    (hp : m.Holds p h) : IntrospectionAgrees m p h := by
  have hi : (m.instanceAt h).Regular := hm.orderly.shaped.instances h
  -- each case asks the instance and tries the access itself; both hang on the one slot under the
  -- name
  constructor
  case asked => exact hp.eval_extension
  case harmless =>
    intro f fuel
    rw [hp.eval_field]
    rcases (m.instanceAt h).field? f with _ | ⟨value, _ | _⟩ <;> rfl
  case readable =>
    intro f fuel
    rw [Machine.says_one_iff (callBuiltin_hasField h f m).1, List.contains_iff_mem,
      hi.mem_fieldNames_iff, hp.eval_field]
    rcases (m.instanceAt h).field? f with _ | ⟨value, _ | _⟩ <;> simp
  case guarded =>
    intro f e fuel
    rw [Machine.says_one_iff (callBuiltin_hasField h f m).2, List.contains_iff_mem,
      hi.mem_fieldNames_iff, Machine.says_zero_iff (callBuiltin_hasField h f m).1,
      List.contains_iff_mem, hi.mem_fieldNames_iff]
    unfold Machine.FailsWith
    rw [hp.eval_field, hp.eval_setField]
    rcases (m.instanceAt h).field? f with _ | ⟨value, _ | _⟩ <;> simp [RuntimeError.kind]
  case unknown =>
    intro f e fuel
    rw [Machine.says_zero_iff (callBuiltin_hasField h f m).2, List.contains_iff_mem,
      hi.mem_fieldNames_iff, hp.eval_field, hp.eval_setField]
    rcases (m.instanceAt h).field? f with _ | ⟨value, _ | _⟩ <;> simp
  case callable =>
    intro f args n hn
    rw [Machine.says_one_iff (callBuiltin_hasFunction h f n m).2, any_signature_iff hn,
      hi.mem_signatures_iff, hp.admits_iff, Invocation.signature]
    rcases (m.instanceAt h).method? ⟨f, args.length⟩ with _ | ⟨routine, _ | _, locals⟩ <;> simp
  case guardedCall =>
    intro f args n hn
    rw [Machine.says_zero_iff (callBuiltin_hasFunction h f n m).2, any_signature_iff hn,
      hi.mem_signatures_iff, Machine.says_one_iff (callBuiltin_hasFunction h f n m).1,
      any_signature_iff hn, hi.mem_signatures_iff, hp.failsAtOnce_iff .accessDenied nofun nofun,
      Invocation.signature]
    rcases (m.instanceAt h).method? ⟨f, args.length⟩ with _ | ⟨routine, _ | _, locals⟩ <;> simp
  case unknownCall =>
    intro f args n hn
    rw [Machine.says_zero_iff (callBuiltin_hasFunction h f n m).1, any_signature_iff hn,
      hi.mem_signatures_iff, hp.failsAtOnce_iff .undefinedFunction nofun nofun,
      Invocation.signature]
    rcases (m.instanceAt h).method? ⟨f, args.length⟩ with _ | ⟨routine, _ | _, locals⟩ <;> simp
  case negative =>
    intro f n hn
    rw [Machine.says_zero_iff (callBuiltin_hasFunction h f n m).1,
      Machine.says_zero_iff (callBuiltin_hasFunction h f n m).2]
    exact ⟨not_any_signature_of_neg hn, not_any_signature_of_neg hn⟩

/-- The instance says that `y` and `g` are there but guarded, that `f` can be called with one
argument, and that there is no `f` without arguments. -/
theorem introspection_agrees_everyKind :
    EveryKind.machine.Holds "a" ⟨0⟩ ∧
      (EveryKind.machine.FailsWith .accessDenied 0 (.field "a" "y") ∧
        EveryKind.machine.FailsWith .accessDenied 0 (.setField "a" "y" (.int 2))) ∧
      EveryKind.machine.FailsAtOnce .accessDenied (.method (.named "a") ⟨"g", []⟩ []) ∧
      EveryKind.machine.Admits "a" ⟨0⟩ ⟨"f", [.int 2]⟩ ∧
      EveryKind.machine.FailsAtOnce .undefinedFunction (.method (.named "a") ⟨"f", []⟩ []) := by
  have hholds : EveryKind.machine.Holds "a" ⟨0⟩ := rfl
  have hagrees := introspection_agrees EveryKind.attained hholds
  exact ⟨hholds, (hagrees.guarded "y" (.int 2) 0).1 ⟨rfl, rfl⟩,
    (hagrees.guardedCall "g" [] 0 rfl).1 ⟨rfl, rfl⟩, (hagrees.callable "f" [.int 2] 1 rfl).1 rfl,
    (hagrees.unknownCall "f" [] 0 rfl).1 rfl⟩

end BoxScript
