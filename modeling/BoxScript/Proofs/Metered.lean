/-!
# Programs with a meter

Some of what a program does cannot be seen in what it answers: how far a parser has gone when it
fails, whether its loops end, whether a sum fits into a machine word, how much has been built before
an error. `Metered` is for second accounts of such programs. They keep a number, which is there
after an error as well, and besides an answer and an error they have a third way to end, which is to
have no outcome: fuel that is used up, or an instruction that goes wrong.
-/

namespace BoxScript

/-- A program that keeps a number, and ends with an answer, with an error, or without an outcome. -/
abbrev Metered (ε α : Type) := ExceptT ε (StateT Nat Option) α

namespace Metered

variable {ε α β : Type}

/-- What the program comes to from the number `n`: its answer or error, and the number at its
end. -/
def outcome (x : Metered ε α) (n : Nat) : Option (Except ε α × Nat) := x.run.run n

/-- A program without an outcome. -/
def stuck : Metered ε α := ExceptT.mk fun _ => none

@[simp] theorem outcome_pure (a : α) (n : Nat) :
    (pure a : Metered ε α).outcome n = some (.ok a, n) := rfl

@[simp] theorem outcome_get (n : Nat) : (get : Metered ε Nat).outcome n = some (.ok n, n) := rfl

@[simp] theorem outcome_modify (f : Nat → Nat) (n : Nat) :
    (modify f : Metered ε PUnit).outcome n = some (.ok ⟨⟩, f n) := rfl

variable {x : Metered ε α} {f : α → Metered ε β} {n n' : Nat}

/-- Behind an answer a program goes on with it. -/
theorem outcome_bind {a : α} (h : x.outcome n = some (.ok a, n')) :
    (x >>= f).outcome n = (f a).outcome n' := by
  show (ExceptT.run x).run n >>= _ = _
  rw [show (ExceptT.run x).run n = _ from h]
  rfl

/-- Behind an error nothing is done. -/
theorem outcome_bind_error {e : ε} (h : x.outcome n = some (.error e, n')) :
    (x >>= f).outcome n = some (.error e, n') := by
  show (ExceptT.run x).run n >>= _ = _
  rw [show (ExceptT.run x).run n = _ from h]
  rfl

end Metered
end BoxScript
