/-!
# Pools of cells

Things that are shared and changed in place live in a pool, and are passed around as handles. A
pool only grows: a new cell gets a handle that no cell had before, and changing one cell leaves
all others as they are. Reading through a handle that no cell has gives the default.
-/

namespace BoxScript

/-- The name of a cell in a pool. -/
structure Handle where
  index : Nat
  deriving DecidableEq, Repr, Inhabited

/-- Cells that are named by handles. -/
structure Pool (α : Type) where
  cells : Array α
  deriving Inhabited

namespace Pool

variable {α : Type}

/-- No cells. -/
def empty : Pool α := ⟨#[]⟩

/-- The number of cells. -/
def size (p : Pool α) : Nat := p.cells.size

/-- What the cell holds. -/
def get [Inhabited α] (p : Pool α) (h : Handle) : α := (p.cells[h.index]?).getD default

/-- Change what the cell holds. -/
def modify (p : Pool α) (h : Handle) (f : α → α) : Pool α := ⟨p.cells.modify h.index f⟩

/-- The handle that the next new cell gets. -/
def next (p : Pool α) : Handle := ⟨p.cells.size⟩

/-- The pool with a new cell, under the handle `next`. -/
def push (p : Pool α) (a : α) : Pool α := ⟨p.cells.push a⟩

@[simp] theorem size_push (p : Pool α) (a : α) : (p.push a).size = p.size + 1 := by
  simp [size, push]

@[simp] theorem size_modify (p : Pool α) (h : Handle) (f : α → α) :
    (p.modify h f).size = p.size := by
  simp [size, modify]

variable [Inhabited α]

@[simp] theorem get_push_next (p : Pool α) (a : α) : (p.push a).get p.next = a := by
  simp [get, push, next]

/-- A new cell leaves the old ones alone. -/
theorem get_push_of_lt {p : Pool α} {h : Handle} (hh : h.index < p.size) (a : α) :
    (p.push a).get h = p.get h := by
  simp only [size] at hh
  simp [get, push, Array.getElem?_push_lt hh, hh]

theorem get_modify_self {p : Pool α} {h : Handle} (hh : h.index < p.size) (f : α → α) :
    (p.modify h f).get h = f (p.get h) := by
  simp only [size] at hh
  simp [get, modify, Array.getElem_modify, hh]

/-- Changing one cell leaves the others alone. -/
theorem get_modify_of_ne {p : Pool α} {h k : Handle} (hk : h ≠ k) (f : α → α) :
    (p.modify h f).get k = p.get k := by
  have : h.index ≠ k.index := fun e => hk (by cases h; cases k; simp_all)
  simp [get, modify, Array.getElem?_modify, this]

end Pool
end BoxScript
