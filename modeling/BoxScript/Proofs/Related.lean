import Mathlib.Data.List.Forall2

/-!
# Lists of related things

What two lists have in common whose items are related one by one: what is looked for in one of them
is found in the other, and what is the same of related items is the same of the lists.
-/

namespace BoxScript

variable {α β γ : Type} {R : α → β → Prop} {l : List α} {l' : List β}

/-- What is the same of related things is the same of two lists of them. -/
theorem map_eq_of_related {f : α → γ} {g : β → γ} (hf : ∀ {a b}, R a b → g b = f a)
    (h : List.Forall₂ R l l') : l'.map g = l.map f := by
  induction h with
  | nil => rfl
  | cons hab _ ih => rw [List.map_cons, List.map_cons, hf hab, ih]

theorem filterMap_eq_of_related {f : α → Option γ} {g : β → Option γ}
    (hf : ∀ {a b}, R a b → g b = f a) (h : List.Forall₂ R l l') :
    l'.filterMap g = l.filterMap f := by
  induction h with
  | nil => rfl
  | cons hab _ ih => rw [List.filterMap_cons, List.filterMap_cons, hf hab, ih]

/-- Related items satisfy their conditions alike, so some do or none. -/
theorem any_eq_of_related {p : α → Bool} {q : β → Bool} (hpq : ∀ {a b}, R a b → q b = p a)
    (h : List.Forall₂ R l l') : l'.any q = l.any p := by
  induction h with
  | nil => rfl
  | cons hab _ ih => rw [List.any_cons, List.any_cons, hpq hab, ih]

theorem filter_related {p : α → Bool} {q : β → Bool} (hpq : ∀ {a b}, R a b → q b = p a)
    (h : List.Forall₂ R l l') : List.Forall₂ R (l.filter p) (l'.filter q) := by
  refine List.rel_filter (fun a b hab => ?_) h
  show p a = true ↔ q b = true
  rw [hpq hab]

/-- The first items that fit are related, or none fits on either side. -/
theorem find?_related {p : α → Bool} {q : β → Bool} (hpq : ∀ {a b}, R a b → q b = p a)
    (h : List.Forall₂ R l l') : Option.Rel R (l.find? p) (l'.find? q) := by
  induction h with
  | nil => exact .none
  | cons hab _ ih =>
    rw [List.find?_cons, List.find?_cons, hpq hab]
    split
    · exact .some hab
    · exact ih

theorem exists_related_of_mem (h : List.Forall₂ R l l') : ∀ a ∈ l, ∃ b ∈ l', R a b := by
  induction h with
  | nil => exact List.forall_mem_nil _
  | @cons a b _ _ hab _ ih =>
    refine List.forall_mem_cons.2 ⟨⟨b, List.mem_cons_self, hab⟩, fun a ha => ?_⟩
    obtain ⟨b, hb, hab⟩ := ih a ha
    exact ⟨b, List.mem_cons_of_mem _ hb, hab⟩

theorem findSome?_related {γ' : Type} {Q : γ → γ' → Prop} {f : α → Option γ} {g : β → Option γ'}
    (hf : ∀ {a b}, R a b → Option.Rel Q (f a) (g b)) (h : List.Forall₂ R l l') :
    Option.Rel Q (l.findSome? f) (l'.findSome? g) := by
  induction h with
  | nil => exact .none
  | @cons a b _ _ hab _ ih =>
    rw [List.findSome?_cons, List.findSome?_cons]
    have hfound := hf hab
    generalize f a = found at hfound
    generalize g b = found' at hfound
    cases hfound with
    | some hq => exact .some hq
    | none => exact ih

/-- For each item something related, with a property: a list of such things. -/
theorem exists_related {P : β → Prop} {f : α → γ} {g : β → γ}
    (h : ∀ a ∈ l, ∃ b, R a b ∧ P b ∧ g b = f a) :
    ∃ l', List.Forall₂ R l l' ∧ (∀ b ∈ l', P b) ∧ l'.map g = l.map f := by
  induction l with
  | nil => exact ⟨[], .nil, List.forall_mem_nil _, rfl⟩
  | cons a l ih =>
    obtain ⟨⟨b, hab, hb, hgb⟩, hrest⟩ := List.forall_mem_cons.1 h
    obtain ⟨l', hrelated, hall, hmap⟩ := ih hrest
    refine ⟨b :: l', .cons hab hrelated, List.forall_mem_cons.2 ⟨hb, hall⟩, ?_⟩
    rw [List.map_cons, List.map_cons, hgb, hmap]

/-- Two lists are equal that are related to a third one, if each item of it has one item only that
it is related to. -/
theorem eq_of_related {l'' : List β} (h : List.Forall₂ R l l') (h' : List.Forall₂ R l l'')
    (hunique : ∀ a, ∀ b ∈ l', ∀ c ∈ l'', R a b → R a c → c = b) : l'' = l' := by
  induction h generalizing l'' with
  | nil =>
    cases h'
    rfl
  | cons hab _ ih =>
    cases h' with
    | cons hac h' =>
      rw [hunique _ _ List.mem_cons_self _ List.mem_cons_self hab hac, ih h' fun a b hb c hc =>
        hunique a b (List.mem_cons_of_mem _ hb) c (List.mem_cons_of_mem _ hc)]

end BoxScript
