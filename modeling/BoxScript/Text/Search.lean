/-!
# Occurrences of one text in another

Texts are searched from left to right, and two occurrences never overlap. A text is split at them,
they are counted, and copies of one text are taken off the end of another.
-/

namespace BoxScript.Text

/-- What follows `t` in a text that starts with it. -/
def after? : (t s : List Char) → Option (List Char)
  | [], s => some s
  | _ :: _, [] => none
  | a :: t, b :: s => if a = b then after? t s else none

theorem after?_eq_some_iff {t s r : List Char} : after? t s = some r ↔ s = t ++ r := by
  induction t generalizing s with
  | nil => simp [after?, eq_comm]
  | cons a t ih =>
    cases s with
    | nil => simp [after?]
    | cons b s =>
      by_cases h : a = b
      · simp [after?, h, ih]
      · simp [after?, h, Ne.symm h]

theorem length_le_of_after? {t s r : List Char} (h : after? t s = some r) :
    r.length ≤ s.length := by
  rw [after?_eq_some_iff.1 h]
  simp

/-- Cut a text at each occurrence of `a :: t`. The pieces found so far and the piece being read
are kept in reverse. -/
def splitFrom (a : Char) (t : List Char) (pieces : List (List Char)) (piece : List Char) :
    List Char → List (List Char)
  | [] => (piece.reverse :: pieces).reverse
  | c :: cs =>
    if a = c then
      match _h : after? t cs with
      | some rest => splitFrom a t (piece.reverse :: pieces) [] rest
      | none => splitFrom a t pieces (c :: piece) cs
    else splitFrom a t pieces (c :: piece) cs
termination_by cs => cs.length
decreasing_by
  · have := length_le_of_after? _h
    simp only [List.length_cons]
    omega
  all_goals simp

/-- The pieces of `s` between the occurrences of `t`. An empty `t` occurs nowhere. -/
def split (s t : List Char) : List (List Char) :=
  match t with
  | [] => [s]
  | a :: t => splitFrom a t [] [] s

/-- The occurrences of `a :: t`, counted on top of those found so far. -/
def countFrom (a : Char) (t : List Char) (found : Nat) : List Char → Nat
  | [] => found
  | c :: cs =>
    if a = c then
      match _h : after? t cs with
      | some rest => countFrom a t (found + 1) rest
      | none => countFrom a t found cs
    else countFrom a t found cs
termination_by cs => cs.length
decreasing_by
  · have := length_le_of_after? _h
    simp only [List.length_cons]
    omega
  all_goals simp

/-- How often `t` occurs in `s`. An empty `t` occurs nowhere. -/
def count (s t : List Char) : Nat :=
  match t with
  | [] => 0
  | a :: t => countFrom a t 0 s

/-- A text without the copies of `a :: t` at its start. -/
def dropCopies (a : Char) (t : List Char) (s : List Char) : List Char :=
  match _h : after? (a :: t) s with
  | some rest => dropCopies a t rest
  | none => s
termination_by s.length
decreasing_by
  rw [after?_eq_some_iff.1 _h]
  simp only [List.cons_append, List.length_cons, List.length_append]
  omega

/-- What is left of `s` without the copies of `t` at its end. -/
def dropCopiesEnd (s t : List Char) : List Char :=
  match t.reverse with
  | [] => s
  | a :: t => (dropCopies a t s.reverse).reverse

end BoxScript.Text
