import BoxScript.Heap

/-!
# Values as text

A value is written the way the program would write it, an instance by its slots. Instances can
hold each other in circles: inside the text of an instance, that same instance is cut off. No
instance is ever open twice, so the text is finite whatever the heap looks like.
-/

namespace BoxScript

/-- The number of instances that are not open, of `size` in all. -/
def closedCount (size : Nat) (opened : List Handle) : Nat :=
  ((List.range size).filter fun n => !opened.contains ⟨n⟩).length

/-- Opening an instance leaves fewer to open. -/
theorem closedCount_cons_lt {size : Nat} {opened : List Handle} {h : Handle}
    (hs : h.index < size) (ho : ¬ opened.contains h) :
    closedCount size (h :: opened) < closedCount size opened := by
  have split : (List.range size).filter (fun n => !(h :: opened).contains ⟨n⟩) =
      ((List.range size).filter fun n => !opened.contains ⟨n⟩).filter
        fun n => decide (n ≠ h.index) := by
    rw [List.filter_filter]
    refine List.filter_congr fun n _ => ?_
    by_cases e : n = h.index
    · subst e; simp
    · have : (⟨n⟩ : Handle) ≠ h := fun e' => e (by rw [← e'])
      simp [e, this]
  unfold closedCount
  rw [split, List.length_filter_lt_length_iff_exists]
  exact ⟨h.index, by simpa [hs] using ho, by simp⟩

mutual

/-- A value as text, inside the text of the instances that are open. -/
def Value.printableIn (instances : Pool Instance) (opened : List Handle) (v : Value) : String :=
  match v with
  | .int n => Text.showInt n
  | .str s => "\"" ++ s ++ "\""
  | .array items => "[" ++ ", ".intercalate (printableItems instances opened [] items) ++ "]"
  | .object h =>
    if opened.contains h then "\x7b" ++ (instances.get h).box ++ " ...\x7d"
    else if h.index < instances.size then
      "\x7b"
        ++ ", ".intercalate (printableSlots instances (h :: opened) [] (instances.get h).slots)
        ++ "\x7d"
    else "\x7b\x7d"
  | .void => "(void)"
termination_by (closedCount instances.size opened, sizeOf v)
decreasing_by
  · exact Prod.Lex.right _ (by simp)
  · exact Prod.Lex.left _ _ (closedCount_cons_lt (by assumption) (by assumption))

/-- The items of an array as text, behind those that are `written` in reverse. -/
def printableItems (instances : Pool Instance) (opened : List Handle) (written : List String)
    (items : List Value) : List String :=
  match items with
  | [] => written.reverse
  | item :: items =>
    printableItems instances opened (item.printableIn instances opened :: written) items
termination_by (closedCount instances.size opened, sizeOf items)

/-- The slots of an instance as text, behind those that are `written` in reverse. -/
def printableSlots (instances : Pool Instance) (opened : List Handle) (written : List String)
    (slots : List Slot) : List String :=
  match slots with
  | [] => written.reverse
  | .field name value _ :: slots =>
    printableSlots instances opened
      ((name ++ ": " ++ value.printableIn instances opened) :: written) slots
  | .function routine _ _ :: slots =>
    printableSlots instances opened
      ((routine.name ++ " <- (" ++ ", ".intercalate routine.params ++ ")") :: written) slots
termination_by (closedCount instances.size opened, sizeOf slots)

end

theorem printableItems_eq (instances : Pool Instance) (opened : List Handle)
    (written : List String) (items : List Value) :
    printableItems instances opened written items
      = written.reverse ++ items.map (·.printableIn instances opened) := by
  induction items generalizing written with
  | nil => rw [printableItems, List.map_nil, List.append_nil]
  | cons v items ih => rw [printableItems, ih, List.reverse_cons, List.append_assoc]; rfl

namespace Heap

/-- A value as text. -/
def printable (heap : Heap) (v : Value) : String := v.printableIn heap.instances []

/-- A value as the console shows it: a string without quotes, else the value as text. -/
def text (heap : Heap) : Value → String
  | .str s => s
  | v => heap.printable v

end Heap
end BoxScript
