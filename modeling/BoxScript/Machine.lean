import BoxScript.Console
import BoxScript.Printable

/-!
# The machine

The state of a running program, and computations on it. A computation always ends in a state, also
when it fails, so what it changed before the failure stays changed. It has one of three results: a
value, an error of the program, or no result because its fuel ran out.
-/

namespace BoxScript

/-- The state of a running program. -/
structure Machine where
  heap : Heap
  context : Context
  console : Console
  files : Files
  /-- How many calls are running. -/
  depth : Nat
  /-- How many definitions were made up for calls in a row. -/
  chained : Nat
  deriving Inhabited

/-- How a computation ends. -/
inductive Result (α : Type) where
  | ok (value : α)
  | error (e : RuntimeError)
  | unfinished

/-- The result of a computation and the state after it. -/
structure Outcome (α : Type) where
  result : Result α
  machine : Machine

/-- A computation on the machine. -/
def Exec (α : Type) := Machine → Outcome α

namespace Exec

variable {α β : Type}

/-- A value, without touching the machine. -/
@[always_inline, inline] def pure (a : α) : Exec α := fun m => ⟨.ok a, m⟩

/-- One computation, then the next; an error ends both. -/
@[always_inline, inline] def bind (x : Exec α) (f : α → Exec β) : Exec β := fun m =>
  match x m with
  | ⟨.ok a, m⟩ => f a m
  | ⟨.error e, m⟩ => ⟨.error e, m⟩
  | ⟨.unfinished, m⟩ => ⟨.unfinished, m⟩

instance : Monad Exec where
  pure := pure
  bind := bind

@[simp] theorem pure_apply (a : α) (m : Machine) : (Pure.pure a : Exec α) m = ⟨.ok a, m⟩ := rfl

theorem bind_apply (x : Exec α) (f : α → Exec β) (m : Machine) :
    (x >>= f) m = match x m with
      | ⟨.ok a, m⟩ => f a m
      | ⟨.error e, m⟩ => ⟨.error e, m⟩
      | ⟨.unfinished, m⟩ => ⟨.unfinished, m⟩ := rfl

instance : LawfulMonad Exec :=
  LawfulMonad.mk' Exec
    (fun x => by
      funext m
      show bind x (fun a => pure a) m = x m
      simp only [bind, pure]
      rcases x m with ⟨_ | _ | _, _⟩ <;> rfl)
    (fun _ _ => rfl)
    (fun x f g => by
      funext m
      simp only [bind_apply]
      rcases x m with ⟨_ | _ | _, _⟩ <;> rfl)

/-- Stop with an error. -/
@[inline] def fail (e : RuntimeError) : Exec α := fun m => ⟨.error e, m⟩

/-- Stop for want of fuel. -/
@[inline] def unfinished : Exec α := fun m => ⟨.unfinished, m⟩

/-- A result that does not need the machine. -/
@[inline] def ofExcept (x : Except RuntimeError α) : Exec α := fun m =>
  match x with
  | .ok a => ⟨.ok a, m⟩
  | .error e => ⟨.error e, m⟩

instance : MonadLift (Except RuntimeError) Exec := ⟨ofExcept⟩

/-- A look at the machine. -/
@[inline] def look (f : Machine → α) : Exec α := fun m => ⟨.ok (f m), m⟩

/-- A change of the machine. -/
@[inline] def update (f : Machine → Machine) : Exec Unit := fun m => ⟨.ok (), f m⟩

/-- A computation with a last step that every way out of it takes. -/
@[inline] def closing (body : Exec α) (leave : Machine → Machine) : Exec α := fun m =>
  match body m with
  | ⟨result, m⟩ => ⟨result, leave m⟩

end Exec

namespace Machine

/-- A machine that has run nothing yet. -/
def new (files : Files) (console : Console) : Machine :=
  let (context, heap) := Context.new .empty
  ⟨heap, context, console, files, 0, 0⟩

/-! ## The tables of the context -/

/-- The variables of the context. -/
def scopes (m : Machine) : Scopes := m.heap.scopes.get m.context.scopes

/-- The functions of the context. -/
def functions (m : Machine) : Functions := m.heap.functions.get m.context.functions

/-- The definitions of the context. -/
def boxes (m : Machine) : Boxes := m.heap.boxes.get m.context.boxes

/-- The pending return signals of the context. -/
def returns (m : Machine) : Returns := m.heap.returns.get m.context.returns

/-- The extensions of the context. -/
def extensions (m : Machine) : Extensions := m.heap.extensions.get m.context.extensions

/-- An instance on the heap. -/
def instanceAt (m : Machine) (h : Handle) : Instance := m.heap.instances.get h

/-- Change a store of variables. -/
def updateScopesAt (m : Machine) (h : Handle) (f : Scopes → Scopes) : Machine :=
  { m with heap := { m.heap with scopes := m.heap.scopes.modify h f } }

/-- Change the variables of the context. -/
def updateScopes (m : Machine) (f : Scopes → Scopes) : Machine :=
  m.updateScopesAt m.context.scopes f

/-- Change the functions of the context. -/
def updateFunctions (m : Machine) (f : Functions → Functions) : Machine :=
  { m with heap := { m.heap with functions := m.heap.functions.modify m.context.functions f } }

/-- Change a table of definitions. -/
def updateBoxesAt (m : Machine) (h : Handle) (f : Boxes → Boxes) : Machine :=
  { m with heap := { m.heap with boxes := m.heap.boxes.modify h f } }

/-- Change the pending return signals of the context. -/
def updateReturns (m : Machine) (f : Returns → Returns) : Machine :=
  { m with heap := { m.heap with returns := m.heap.returns.modify m.context.returns f } }

/-- Change the extensions of the context. -/
def updateExtensions (m : Machine) (f : Extensions → Extensions) : Machine :=
  { m with heap := { m.heap with extensions := m.heap.extensions.modify m.context.extensions f } }

/-- Change an instance. -/
def updateInstance (m : Machine) (h : Handle) (f : Instance → Instance) : Machine :=
  { m with heap := { m.heap with instances := m.heap.instances.modify h f } }

/-! ## Scope level, clause and signals -/

/-- The machine at another scope level. -/
def atLevel (m : Machine) (level : Nat) : Machine :=
  { m with context := { m.context with level := level } }

/-- The machine inside or outside a clause of a `for`. -/
def withClause (m : Machine) (inClause : Bool) : Machine :=
  { m with context := { m.context with inClause := inClause } }

/-- Drop the scopes above a level and go back to it. -/
def closeTo (m : Machine) (level : Nat) : Machine :=
  (m.updateScopes (·.close level)).atLevel level

/-- Whether a return signal is pending. -/
def pending (m : Machine) : Bool := !m.returns.isEmpty

/-- The newest return signal. -/
def signal (m : Machine) : Value := m.returns.getLast?.getD .void

/-- Drop the newest return signal. -/
def dropSignal (m : Machine) : Machine := m.updateReturns List.dropLast

/-- Note that the newest return signal ends a run, if such things are noted. -/
def noteSignal (m : Machine) : Machine :=
  if m.console.verbose then
    let record := "DEBUG top-level return ends the run value=" ++ m.heap.printable m.signal ++ "\n"
    { m with console := m.console.note record }
  else m

end Machine
end BoxScript
