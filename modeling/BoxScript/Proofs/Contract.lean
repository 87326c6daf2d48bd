import BoxScript.Eval

/-!
# Contracts of computations

Most of what can be said about a run has one shape: while some invariant holds, every step keeps
it and moves the machine along some relation. A `Contract` is such an invariant with such a
relation. It is kept by a computation when it is kept on every way out, also by a failure, and it
always includes that the context and the depth come back as they were.

A contract is kept by *two* computations at a time, which have to end alike. With one computation
in both places that is no more than the above. With an evaluator that goes its own way outside the
invariant in one place and the real one in the other, it says that the evaluation never gets
outside.

A contract can be about some runs only: those that keep to the nodes in its scope and to the methods
that it lets be called. Such a contract has to be lax, since other runs are cut off where they leave
the scope.

The rules below take a computation apart along `bind`, the loops and the lists of the model. What
remains of a proof about the evaluator is one obligation for each kind of step.
-/

namespace BoxScript

namespace Exec

variable {α β : Type} {x : Exec α} {f : α → Exec β} {m m' : Machine}

theorem bind_ok {a : α} (h : x m = ⟨.ok a, m'⟩) : (x >>= f) m = f a m' := by
  rw [Exec.bind_apply, h]

theorem bind_error {e : RuntimeError} (h : x m = ⟨.error e, m'⟩) :
    (x >>= f) m = ⟨.error e, m'⟩ := by
  rw [Exec.bind_apply, h]

/-- A value at the end of two computations in a row comes from a value of the first one. -/
theorem ok_of_bind {b : β} (h : (x >>= f) m = ⟨.ok b, m'⟩) :
    ∃ a m₁, x m = ⟨.ok a, m₁⟩ ∧ f a m₁ = ⟨.ok b, m'⟩ := by
  rw [Exec.bind_apply] at h
  rcases hx : x m with ⟨a | _ | _, m₁⟩ <;> rw [hx] at h
  · exact ⟨a, m₁, rfl, h⟩
  · cases h
  · cases h

theorem bind_congr {y : Exec α} (h : x m = y m') : (x >>= f) m = (y >>= f) m' := by
  rw [Exec.bind_apply, Exec.bind_apply, h]

theorem closing_apply (x : Exec α) (leave : Machine → Machine) (m : Machine) :
    closing x leave m = ⟨(x m).result, leave (x m).machine⟩ := rfl

/-- A run that does not end has nothing after it. -/
theorem bind_unfinished (h : (x m).result = .unfinished) :
    ((x >>= f) m).result = .unfinished := by
  rw [Exec.bind_apply]
  generalize x m = o at h
  rcases o with ⟨_ | _ | _, m'⟩
  · cases h
  · cases h
  · rfl

end Exec

/-- The context and the depth are as they were. -/
structure Restored (m m' : Machine) : Prop where
  context : m'.context = m.context
  depth : m'.depth = m.depth

theorem Restored.refl (m : Machine) : Restored m m := ⟨rfl, rfl⟩

theorem Restored.trans {a b c : Machine} (h : Restored a b) (h' : Restored b c) : Restored a c :=
  ⟨h'.context.trans h.context, h'.depth.trans h.depth⟩

/-- An invariant, and a relation between the machines before and after. -/
structure Contract where
  /-- Whether two computations may differ where the second one does not end. -/
  lax : Prop
  inv : Machine → Prop
  rel : Machine → Machine → Prop
  /-- The nodes that may be evaluated, and the machines on which they may. -/
  scope : Node → Machine → Prop := fun _ _ => True
  /-- The methods that may be called, by instance and signature. -/
  calls : Handle → Signature → Prop := fun _ _ => True

namespace Contract

variable {C : Contract} {α β : Type}

/-- A change of the machine that the contract allows. -/
structure Allows (C : Contract) (m m' : Machine) : Prop where
  inv : C.inv m'
  rel : C.rel m m'

/-- An allowed change that leaves context and depth as they were. -/
structure Moves (C : Contract) (m m' : Machine) : Prop extends C.Allows m m' where
  restored : Restored m m'

/-- Two ways to end that the contract allows from the machine `m`. -/
structure Meets (C : Contract) (m : Machine) (o o' : Outcome α) : Prop where
  same : (C.lax ∧ o'.result = .unfinished) ∨ o = o'
  moves : C.Moves m o'.machine

/-- Both computations end alike, and as the contract allows. -/
def Kept (C : Contract) (x y : Exec α) : Prop := ∀ m, C.inv m → C.Meets m (x m) (y m)

/-- The relation can be put together from steps. -/
structure Lawful (C : Contract) : Prop where
  refl : ∀ {m}, C.inv m → C.rel m m
  trans : ∀ {a b c}, C.rel a b → C.rel b c → C.rel a c

theorem Moves.refl (law : C.Lawful) {m : Machine} (h : C.inv m) : C.Moves m m :=
  ⟨⟨h, law.refl h⟩, Restored.refl m⟩

theorem Moves.trans (law : C.Lawful) {a b c : Machine} (h : C.Moves a b) (h' : C.Moves b c) :
    C.Moves a c :=
  ⟨⟨h'.inv, law.trans h.rel h'.rel⟩, h.restored.trans h'.restored⟩

/-! ## Computations in a row -/

/-- A computation that leaves the machine alone keeps every contract. -/
theorem kept_of_unchanged (law : C.Lawful) {x : Exec α} (h : ∀ m, (x m).machine = m) :
    C.Kept x x := by
  intro m hm
  refine ⟨.inr rfl, ?_⟩
  rw [h m]
  exact Moves.refl law hm

/-- What neither changes nor asks for anything keeps every contract. -/
theorem kept_pure (law : C.Lawful) (a : α) : C.Kept (pure a) (pure a) :=
  kept_of_unchanged law fun _ => rfl

theorem kept_fail (law : C.Lawful) (e : RuntimeError) :
    C.Kept (Exec.fail e : Exec α) (Exec.fail e) :=
  kept_of_unchanged law fun _ => rfl

theorem kept_ofExcept (law : C.Lawful) (x : Except RuntimeError α) :
    C.Kept (Exec.ofExcept x) (Exec.ofExcept x) :=
  kept_of_unchanged law fun m => by cases x <;> rfl

theorem kept_update {f : Machine → Machine} (h : ∀ m, C.inv m → C.Moves m (f m)) :
    C.Kept (Exec.update f) (Exec.update f) :=
  fun m hm => ⟨.inr rfl, h m hm⟩

/-- One computation, then the next, from one machine. -/
theorem Meets.bind (law : C.Lawful) {x y : Exec α} {f g : α → Exec β} {m : Machine}
    (h : C.Meets m (x m) (y m))
    (hf : ∀ a m', y m = ⟨.ok a, m'⟩ → C.Moves m m' → C.Meets m' (f a m') (g a m')) :
    C.Meets m ((x >>= f) m) ((y >>= g) m) := by
  obtain ⟨same, moves⟩ := h
  rw [Exec.bind_apply, Exec.bind_apply]
  rcases same with ⟨lax, ends⟩ | same
  · -- the second computation does not end, so neither does what follows it
    rcases hy : y m with ⟨_ | _ | _, m'⟩ <;> rw [hy] at ends moves
    · cases ends
    · cases ends
    · exact ⟨.inl ⟨lax, rfl⟩, moves⟩
  · rw [same]
    rcases hy : y m with ⟨a | e | _, m'⟩ <;> rw [hy] at moves
    · obtain ⟨same', moves'⟩ := hf a m' hy moves
      exact ⟨same', moves.trans law moves'⟩
    · exact ⟨.inr rfl, moves⟩
    · exact ⟨.inr rfl, moves⟩

/-- One computation, then the next. -/
theorem Kept.bind (law : C.Lawful) {x y : Exec α} {f g : α → Exec β} (h : C.Kept x y)
    (hf : ∀ a, C.Kept (f a) (g a)) : C.Kept (x >>= f) (y >>= g) :=
  fun m hm => (h m hm).bind law fun a m' _ moves => hf a m' moves.inv

/-- A look at the machine tells what follows that the invariant held there. -/
theorem kept_look_bind {f : Machine → α} {g g' : α → Exec β}
    (h : ∀ m, C.inv m → C.Kept (g (f m)) (g' (f m))) :
    C.Kept (Exec.look f >>= g) (Exec.look f >>= g') :=
  fun m hm => h m hm m hm

/-- What follows a pure result may rely on what the result is. -/
theorem kept_ofExcept_bind (law : C.Lawful) {x : Except RuntimeError α} {f g : α → Exec β}
    (h : ∀ a, x = .ok a → C.Kept (f a) (g a)) :
    C.Kept (Exec.ofExcept x >>= f) (Exec.ofExcept x >>= g) := by
  cases x with
  | ok a => exact h a rfl
  | error e => exact kept_fail law e

/-- A computation from another machine, with a last step that every way out takes. -/
theorem Meets.closing {x y : Exec α} {leave : Machine → Machine} {m entered : Machine}
    (h : C.Meets entered (x entered) (y entered))
    (hleave : ∀ m', C.Moves entered m' → C.Moves m (leave m')) :
    C.Meets m (Exec.closing x leave entered) (Exec.closing y leave entered) := by
  obtain ⟨same, moves⟩ := h
  unfold Exec.closing
  rcases same with ⟨lax, ends⟩ | same
  · rcases hy : y entered with ⟨_ | _ | _, m'⟩ <;> rw [hy] at ends moves
    · cases ends
    · cases ends
    · exact ⟨.inl ⟨lax, rfl⟩, hleave m' moves⟩
  · rw [same]
    rcases hy : y entered with ⟨r, m'⟩
    rw [hy] at moves
    exact ⟨.inr rfl, hleave m' moves⟩

/-- A computation between an entry and an exit moves the machine as both together do. -/
theorem Kept.closing {x y : Exec α} {leave : Machine → Machine} {m entered : Machine}
    (h : C.Kept x y) (henter : C.inv entered)
    (hleave : ∀ m', C.Moves entered m' → C.Moves m (leave m')) :
    C.Meets m (Exec.closing x leave entered) (Exec.closing y leave entered) :=
  (h entered henter).closing hleave

/-! ## Lists and loops -/

section Loops

variable {ev ev' : Evaluator}

theorem evalArgsFrom_cons (ev : Evaluator) (done : List Value) (arg : Node) (args : List Node) :
    (evalArgsFrom ev done (arg :: args) : Exec (List Value))
      = ev arg >>= fun v => evalArgsFrom ev (v :: done) args := by
  funext m
  show _ = Exec.bind (ev arg) _ m
  simp only [evalArgsFrom, Exec.bind]
  rcases ev arg m with ⟨_ | _ | _, m'⟩ <;> rfl

/-- A block runs its first statement, and asks for a pending signal before it goes on. -/
theorem runBlock_cons (ev : Evaluator) (node : Node) (nodes : List Node) :
    (runBlock ev (node :: nodes) : Exec Bool)
      = ev node >>= fun _ => Exec.look Machine.pending >>= fun stops =>
          if stops then pure true else runBlock ev nodes := by
  funext m
  rw [Exec.bind_apply, runBlock]
  rcases ev node m with ⟨_ | _ | _, m'⟩
  · cases h : m'.pending <;> simp [Exec.bind_apply, Exec.look, h]
  · rfl
  · rfl

/-- A block asks for its own statements only. -/
theorem runBlock_congr {ev ev' : Evaluator} {nodes : List Node} (h : ∀ n ∈ nodes, ev n = ev' n) :
    (runBlock ev nodes : Exec Bool) = runBlock ev' nodes := by
  induction nodes with
  | nil => rfl
  | cons node nodes ih =>
    rw [runBlock_cons, runBlock_cons, h node List.mem_cons_self,
      ih fun n hn => h n (List.mem_cons_of_mem _ hn)]

theorem repeatWhile_succ (test body : Exec Bool) (step : Exec Unit) (fuel : Nat) :
    (repeatWhile test body step (fuel + 1) : Exec Unit)
      = test >>= fun goesOn =>
          if goesOn then body >>= fun stops =>
            if stops then pure () else step >>= fun _ => repeatWhile test body step fuel
          else pure () := by
  funext m
  rw [Exec.bind_apply, repeatWhile]
  rcases test m with ⟨goesOn | _ | _, m₁⟩
  · cases goesOn
    · rfl
    · simp only [if_true, Exec.bind_apply]
      rcases body m₁ with ⟨stops | _ | _, m₂⟩
      · cases stops
        · show _ = Exec.bind step _ m₂
          simp only [Exec.bind]
          rcases step m₂ with ⟨_ | _ | _, m₃⟩ <;> rfl
        · rfl
      · rfl
      · rfl
  · rfl
  · rfl

theorem kept_runBlock (law : C.Lawful) {nodes : List Node}
    (h : ∀ n ∈ nodes, C.Kept (ev n) (ev' n)) :
    C.Kept (α := Bool) (runBlock ev nodes) (runBlock ev' nodes) := by
  induction nodes with
  | nil => exact kept_pure law false
  | cons node nodes ih =>
    rw [runBlock_cons, runBlock_cons]
    refine (h node List.mem_cons_self).bind law fun _ => kept_look_bind fun m _ => ?_
    cases m.pending with
    | true => exact kept_pure law true
    | false => exact ih fun n hn => h n (List.mem_cons_of_mem _ hn)

theorem kept_repeatWhile (law : C.Lawful) {test test' body body' : Exec Bool}
    {step step' : Exec Unit} (htest : C.Kept test test') (hbody : C.Kept body body')
    (hstep : C.Kept step step') (fuel : Nat) :
    C.Kept (α := Unit) (repeatWhile test body step fuel) (repeatWhile test' body' step' fuel) := by
  induction fuel with
  | zero => exact kept_of_unchanged law fun _ => rfl
  | succ fuel ih =>
    rw [repeatWhile_succ, repeatWhile_succ]
    refine htest.bind law fun goesOn => ?_
    cases goesOn with
    | false => exact kept_pure law ()
    | true =>
      refine hbody.bind law fun stops => ?_
      cases stops with
      | true => exact kept_pure law ()
      | false => exact hstep.bind law fun _ => ih

theorem kept_holds (law : C.Lawful) {condition : Node}
    (h : C.Kept (ev condition) (ev' condition)) :
    C.Kept (holds ev condition) (holds ev' condition) :=
  h.bind law fun v => (kept_ofExcept law v.asInt).bind law fun n => kept_pure law (n != 0)

end Loops

/-! ## What computations give -/

section Results

variable {A : α → Prop} {B : β → Prop}

/-- Two ways to end that the contract allows from the machine `m`, with a value in `A` if any. -/
structure Gives (C : Contract) (A : α → Prop) (m : Machine) (o o' : Outcome α) : Prop
    extends C.Meets m o o' where
  value : ∀ {a}, o'.result = .ok a → A a

/-- Both computations end alike and as the contract allows, and what they give is in `A`. -/
def Yields (C : Contract) (A : α → Prop) (x y : Exec α) : Prop :=
  ∀ m, C.inv m → C.Gives A m (x m) (y m)

theorem Yields.kept {x y : Exec α} (h : C.Yields A x y) : C.Kept x y :=
  fun m hm => (h m hm).toMeets

theorem Meets.gives {m : Machine} {o o' : Outcome α} (h : C.Meets m o o') :
    C.Gives (fun _ => True) m o o' := ⟨h, fun _ => trivial⟩

/-- Nothing is said about results that may be anything. -/
theorem Kept.yields {x y : Exec α} (h : C.Kept x y) : C.Yields (fun _ => True) x y :=
  fun m hm => (h m hm).gives

theorem yields_value (law : C.Lawful) {a : α} (ha : A a) : C.Yields A (pure a) (pure a) := by
  refine fun m hm => ⟨kept_pure law a m hm, fun hok => ?_⟩
  cases hok
  exact ha

theorem yields_fail (law : C.Lawful) (e : RuntimeError) :
    C.Yields A (Exec.fail e) (Exec.fail e) :=
  fun m hm => ⟨kept_fail law e m hm, nofun⟩

theorem yields_ofExcept (law : C.Lawful) {x : Except RuntimeError α} (h : ∀ a, x = .ok a → A a) :
    C.Yields A (Exec.ofExcept x) (Exec.ofExcept x) := by
  cases x with
  | ok a => exact yields_value law (h a rfl)
  | error e => exact yields_fail law e

/-- One computation, then the next, from one machine. -/
theorem Gives.bind (law : C.Lawful) {x y : Exec α} {f g : α → Exec β} {m : Machine}
    (h : C.Gives A m (x m) (y m))
    (hf : ∀ a m', A a → C.Moves m m' → C.Gives B m' (f a m') (g a m')) :
    C.Gives B m ((x >>= f) m) ((y >>= g) m) := by
  have hnext : ∀ {a m'}, y m = ⟨.ok a, m'⟩ → C.Moves m m' → C.Gives B m' (f a m') (g a m') :=
    fun hy moves => hf _ _ (h.value (by rw [hy])) moves
  refine ⟨h.toMeets.bind law fun a m' hy moves => (hnext hy moves).toMeets, fun {b} hok => ?_⟩
  have hends : (y >>= g) m = ⟨.ok b, ((y >>= g) m).machine⟩ := by rw [← hok]
  obtain ⟨a, m', hy, hg⟩ := Exec.ok_of_bind hends
  have moves := h.moves
  rw [hy] at moves
  exact (hnext hy moves).value (by rw [hg])

/-- One computation, then the next. -/
theorem Yields.bind (law : C.Lawful) {x y : Exec α} {f g : α → Exec β} (h : C.Yields A x y)
    (hf : ∀ a, A a → C.Yields B (f a) (g a)) : C.Yields B (x >>= f) (y >>= g) :=
  fun m hm => (h m hm).bind law fun a m' ha moves => hf a ha m' moves.inv

/-- What is only looked at may be anything that is seen on a machine with the invariant. -/
theorem yields_look_bind {f : Machine → α} {g g' : α → Exec β}
    (h : ∀ m, C.inv m → C.Yields B (g (f m)) (g' (f m))) :
    C.Yields B (Exec.look f >>= g) (Exec.look f >>= g') :=
  fun m hm => h m hm m hm

theorem Gives.closing {x y : Exec α} {leave : Machine → Machine} {m entered : Machine}
    (h : C.Gives A entered (x entered) (y entered))
    (hleave : ∀ m', C.Moves entered m' → C.Moves m (leave m')) :
    C.Gives A m (Exec.closing x leave entered) (Exec.closing y leave entered) :=
  ⟨h.toMeets.closing hleave, h.value⟩

theorem yields_evalArgs (law : C.Lawful) {V : Value → Prop} {ev ev' : Evaluator}
    {args : List Node} (h : ∀ a ∈ args, C.Yields V (ev a) (ev' a)) :
    C.Yields (fun vs => ∀ v ∈ vs, V v) (evalArgs ev args) (evalArgs ev' args) := by
  have key : ∀ done, (∀ v ∈ done, V v) → C.Yields (fun vs => ∀ v ∈ vs, V v)
      (evalArgsFrom ev done args) (evalArgsFrom ev' done args) := by
    induction args with
    | nil =>
      exact fun done hdone => yields_value law fun v hv => hdone v (List.mem_reverse.1 hv)
    | cons arg args ih =>
      intro done hdone
      rw [evalArgsFrom_cons, evalArgsFrom_cons]
      exact (h arg List.mem_cons_self).bind law fun v hv =>
        ih (fun a ha => h a (List.mem_cons_of_mem _ ha)) (v :: done)
          (List.forall_mem_cons.2 ⟨hv, hdone⟩)
  exact key [] fun v hv => absurd hv List.not_mem_nil

end Results

end Contract
end BoxScript
