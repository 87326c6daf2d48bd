import BoxScript.Box
import BoxScript.Scopes

/-!
# The heap and the context

All that running code shares lives on the heap: stores of variables, tables of functions, boxes
and extensions, stacks of return signals, and instances. A context says which of them the code
works on. Copying a context shares the tables; `Context.fork` copies the tables too, and
`Context.merge` adds to one context's tables what another context has on top.
-/

namespace BoxScript

/-- A function that extends all values of a kind, declared by the program. -/
structure Extension where
  kind : Kind
  routine : Routine

/-- How many arguments an extension takes beside the value it is called on. -/
def Extension.arity (e : Extension) : Nat := e.routine.params.length - 1

/-- Functions by signature. -/
abbrev Functions := Dict Signature Routine
/-- Definitions by name. -/
abbrev Boxes := Dict String BoxDef
/-- Extensions by name in lower case. -/
abbrev Extensions := Dict String Extension
/-- Return signals that no call has taken yet, oldest first. -/
abbrev Returns := List Value

/-- All that running code shares. -/
structure Heap where
  scopes : Pool Scopes
  functions : Pool Functions
  boxes : Pool Boxes
  returns : Pool Returns
  extensions : Pool Extensions
  instances : Pool Instance
  deriving Inhabited

/-- An empty heap. -/
def Heap.empty : Heap := ⟨.empty, .empty, .empty, .empty, .empty, .empty⟩

/-- What code works on: the tables, its scope level, and whether it is a clause of a `for`, where
an assignment binds at that very level. -/
structure Context where
  scopes : Handle
  functions : Handle
  boxes : Handle
  returns : Handle
  extensions : Handle
  level : Nat
  inClause : Bool
  deriving DecidableEq, Repr, Inhabited

namespace Context

/-- The context whose tables are the next new cells of the heap. -/
def next (heap : Heap) (level : Nat) (inClause : Bool) : Context where
  scopes := heap.scopes.next
  functions := heap.functions.next
  boxes := heap.boxes.next
  returns := heap.returns.next
  extensions := heap.extensions.next
  level := level
  inClause := inClause

/-- A context with empty tables. -/
def new (heap : Heap) : Context × Heap :=
  (next heap 0 false,
    { heap with
      scopes := heap.scopes.push .empty
      functions := heap.functions.push .empty
      boxes := heap.boxes.push .empty
      returns := heap.returns.push []
      extensions := heap.extensions.push .empty })

/-- A context with copies of all tables. -/
def fork (c : Context) (heap : Heap) : Context × Heap :=
  (next heap c.level c.inClause,
    { heap with
      scopes := heap.scopes.push (heap.scopes.get c.scopes)
      functions := heap.functions.push (heap.functions.get c.functions)
      boxes := heap.boxes.push (heap.boxes.get c.boxes)
      returns := heap.returns.push (heap.returns.get c.returns)
      extensions := heap.extensions.push (heap.extensions.get c.extensions) })

/-- Change one cell by what another cell holds; a cell is not changed by itself. -/
def mergeCell {α : Type} [Inhabited α] (combine : α → α → α) (into source : Handle)
    (pool : Pool α) : Pool α :=
  if into = source then pool else pool.modify into fun a => combine a (pool.get source)

/-- Add to the tables of `c` what those of `sub` have on top. What stands in the tables of `c`
stays. The first `inherited` return signals of `sub` are not new, and level and clause are those
of `sub`. -/
def merge (c sub : Context) (inherited : Nat) (heap : Heap) : Context × Heap :=
  ({ c with level := sub.level, inClause := sub.inClause },
    { heap with
      scopes := mergeCell Scopes.absorb c.scopes sub.scopes heap.scopes
      functions := mergeCell Dict.union c.functions sub.functions heap.functions
      boxes := mergeCell Dict.union c.boxes sub.boxes heap.boxes
      returns := mergeCell (fun a b => a ++ b.drop inherited) c.returns sub.returns heap.returns
      extensions := mergeCell Dict.union c.extensions sub.extensions heap.extensions })

end Context
end BoxScript
