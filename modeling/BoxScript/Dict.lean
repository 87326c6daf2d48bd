/-!
# Dictionaries

A dictionary keeps its entries in the order in which their keys came first. What matters of it is
`get?`, and each operation is described by what it does to `get?`. Listings sort the entries.
-/

namespace BoxScript

/-- Entries under keys. -/
structure Dict (κ α : Type) where
  entries : List (κ × α)
  deriving Inhabited

namespace Dict

variable {κ α : Type} [DecidableEq κ]

/-- No entries. -/
def empty : Dict κ α := ⟨[]⟩

/-- What the entries say about a key. -/
@[specialize] def find? (k : κ) : List (κ × α) → Option α
  | [] => none
  | (k', a) :: rest => if k = k' then some a else find? k rest

/-- What stands under a key. -/
@[inline] def get? (d : Dict κ α) (k : κ) : Option α := find? k d.entries

/-- Whether something stands under a key. -/
@[inline] def contains (d : Dict κ α) (k : κ) : Bool := (d.get? k).isSome

/-- Entries with `a` under `k`: in the place of what stood there, or at the end. -/
@[specialize] def put (k : κ) (a : α) : List (κ × α) → List (κ × α)
  | [] => [(k, a)]
  | (k', a') :: rest => if k = k' then (k, a) :: rest else (k', a') :: put k a rest

/-- Put `a` under `k`, in the place of what stood there. -/
@[inline] def insert (d : Dict κ α) (k : κ) (a : α) : Dict κ α := ⟨put k a d.entries⟩

/-- Put `a` under `k` unless something stands there. -/
@[inline] def insertNew (d : Dict κ α) (k : κ) (a : α) : Dict κ α :=
  if d.contains k then d else d.insert k a

/-- Take away what stands under `k`. -/
def erase (d : Dict κ α) (k : κ) : Dict κ α := ⟨d.entries.filter (·.1 ≠ k)⟩

/-- The entries of both; where both have a key, the first one's entry. -/
def union (d e : Dict κ α) : Dict κ α := e.entries.foldl (fun d e => d.insertNew e.1 e.2) d

/-- The entries in the order of their keys. -/
def sorted (le : κ → κ → Bool) (d : Dict κ α) : List (κ × α) :=
  d.entries.mergeSort fun a b => le a.1 b.1

/-! ## What the operations do to `get?` -/

@[simp] theorem get?_empty (k : κ) : (empty : Dict κ α).get? k = none := rfl

theorem find?_put (k k' : κ) (a : α) (es : List (κ × α)) :
    find? k' (put k a es) = if k' = k then some a else find? k' es := by
  induction es with
  | nil => simp [put, find?]
  | cons e es ih =>
    obtain ⟨k'', b⟩ := e
    by_cases h : k = k''
    · subst h; by_cases h' : k' = k <;> simp [put, find?, h']
    · by_cases h' : k' = k''
      · subst h'; simp [put, find?, h, Ne.symm h]
      · simp [put, find?, h, h', ih]

theorem get?_insert (d : Dict κ α) (k k' : κ) (a : α) :
    (d.insert k a).get? k' = if k' = k then some a else d.get? k' :=
  find?_put k k' a d.entries

@[simp] theorem get?_insert_self (d : Dict κ α) (k : κ) (a : α) :
    (d.insert k a).get? k = some a := by
  simp [get?_insert]

theorem get?_insertNew (d : Dict κ α) (k k' : κ) (a : α) :
    (d.insertNew k a).get? k' = if k' = k then some ((d.get? k).getD a) else d.get? k' := by
  unfold insertNew contains
  split
  · next h =>
    obtain ⟨b, hb⟩ := Option.isSome_iff_exists.1 h
    by_cases hk : k' = k
    · subst hk; simp [hb]
    · simp [hk]
  · next h =>
    rw [Option.not_isSome_iff_eq_none] at h
    rw [get?_insert]
    simp [h]

theorem find?_filter_ne (k k' : κ) (es : List (κ × α)) :
    find? k' (es.filter (·.1 ≠ k)) = if k' = k then none else find? k' es := by
  induction es with
  | nil => simp [find?]
  | cons e es ih =>
    obtain ⟨k'', b⟩ := e
    by_cases h : k'' = k
    · subst h
      rw [List.filter_cons_of_neg (by simp), ih]
      by_cases h' : k' = k'' <;> simp [find?, h']
    · rw [List.filter_cons_of_pos (by simpa using h), find?, find?, ih]
      by_cases h' : k' = k''
      · subst h'; simp [h]
      · simp [h']

theorem get?_erase (d : Dict κ α) (k k' : κ) :
    (d.erase k).get? k' = if k' = k then none else d.get? k' :=
  find?_filter_ne k k' d.entries

end Dict
end BoxScript
