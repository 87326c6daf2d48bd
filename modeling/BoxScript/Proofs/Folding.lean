import BoxScript.Proofs.Numerals
import BoxScript.Proofs.Redoing

/-!
# Integers behind minus signs

A minus sign before an integer can be a node of its own, or it can be part of the integer. `Folded`
relates the tree in which it is part of the integer to the tree in which it is a node, and such
trees do the same: they are alike but for integers, and an integer behind minus signs is evaluated
to the number that it is.
-/

namespace BoxScript

/-! ## Trees -/

/-- The node is an integer behind minus signs, and the number that this is. No minus overflows. -/
inductive Node.Denotes : Node → Int64 → Prop
  | int (k : Int64) : Denotes (.int k) k
  | negate {v : Node} {k : Int64} (h : v.Denotes k) (hk : k ≠ Int64.minValue) :
    Denotes (.negate v) (-k)

/-- The first tree is the second one with minus signs before integers folded into them. -/
inductive Node.Folded : Node → Node → Prop
  | literal {k : Int64} {y : Node} (hk : k ≠ Int64.minValue) (h : y.Denotes k) : Folded (.int k) y
  | node {x y : Node} (h : x.Recoded Folded y) : Folded x y

/-- The first tree is the second one, with or without folding. -/
def Node.FoldedOrSame (x y : Node) : Prop := x = y ∨ x.Folded y

/-- The node `x` stands somewhere in the tree. -/
inductive Node.Within (x : Node) : Node → Prop
  | here : Within x x
  | under {n c : Node} (hc : c ∈ n.children) (h : Within x c) : Within x n

/-- A minus sign before trees that are alike is folded into an integer, or stays in both. -/
theorem Node.Folded.minus {x y : Node} (h : x.Folded y) : (negated x).Folded (.negate y) := by
  cases h with
  | @literal k _ hk h =>
    have hne : -k ≠ Int64.minValue := fun heq => hk (by rw [← Int64.neg_neg (a := k), heq]; rfl)
    exact .literal hne (.negate h hk)
  | node h =>
    have hnegated : negated x = .negate x := by cases h <;> rfl
    rw [hnegated]
    exact .node (.negate (.node h))

/-- **No integer of a folded tree is the least one.** -/
theorem Node.Folded.int_ne {x y : Node} (h : x.Folded y) {k : Int64}
    (hk : (Node.int k).Within x) : k ≠ Int64.minValue := by
  induction hk generalizing y with
  | here =>
    cases h with
    | literal hk _ => exact hk
    | node h => cases h
  | under hc _ ih =>
    cases h with
    | literal => cases hc
    | node h =>
      obtain ⟨c', -, hc'⟩ := exists_related_of_mem h.children _ hc
      exact ih hc'

/-! ## Evaluation -/

/-- An integer behind minus signs is evaluated to the number that it is, with enough fuel. -/
theorem Node.Denotes.eval {n : Node} {k : Int64} (h : n.Denotes k) : ∃ depth, ∀ fuel m,
    (fuel ≤ depth → eval fuel n m = ⟨.unfinished, m⟩) ∧
      (depth < fuel → eval fuel n m = ⟨.ok (.int k), m⟩) := by
  induction h with
  | int k =>
    refine ⟨0, fun fuel m => ?_⟩
    cases fuel with
    | zero => exact ⟨fun _ => rfl, fun hfuel => absurd hfuel (Nat.lt_irrefl 0)⟩
    | succ fuel => exact ⟨fun hfuel => absurd hfuel (Nat.not_succ_le_zero fuel), fun _ => rfl⟩
  | @negate v k _ hk ih =>
    obtain ⟨depth, hdepth⟩ := ih
    refine ⟨depth + 1, fun fuel m => ?_⟩
    cases fuel with
    | zero => exact ⟨fun _ => rfl, fun hfuel => absurd hfuel (Nat.not_lt_zero _)⟩
    | succ fuel =>
      obtain ⟨hburnt, hdone⟩ := hdepth fuel m
      have hnegate : BoxScript.eval (fuel + 1) (.negate v) m
          = Exec.bind (BoxScript.eval fuel v) (fun v => Exec.ofExcept (Operator.negate v)) m := rfl
      refine ⟨fun hfuel => ?_, fun hfuel => ?_⟩
      · simp only [hnegate, Exec.bind, hburnt (Nat.le_of_succ_le_succ hfuel)]
      · simp only [hnegate, Exec.bind, hdone (Nat.lt_of_succ_lt_succ hfuel), Operator.negate,
          fit_neg_toInt hk]
        rfl

/-- Two expressions that stand for one number redo each other. -/
theorem Node.Denotes.redoes {S : Node → Node → Prop} {x y : Node} {k : Int64} (hx : x.Denotes k)
    (hy : y.Denotes k) (fuel : Nat) : Redoes S (BoxScript.eval fuel x) (BoxScript.eval · y) := by
  obtain ⟨depth, hdepth⟩ := hx.eval
  obtain ⟨enough, henough⟩ := hy.eval
  intro m m' hm
  by_cases hfuel : fuel ≤ depth
  · rw [(hdepth fuel m).1 hfuel]
    exact .unfinished
  · rw [(hdepth fuel m).2 (by omega)]
    exact .settled hm (enough + 1) fun fuel hfuel => (henough fuel m').2 (by omega)

theorem Node.foldedOrSame_self (n : Node) : n.FoldedOrSame n := .inl rfl

/-- Trees that are the same but for folding are of one kind, or they are the same integer. -/
theorem Node.FoldedOrSame.cases {x y : Node} (h : x.FoldedOrSame y) :
    (x.Recoded FoldedOrSame y ∧ y.Recoded (flip FoldedOrSame) x) ∨
      ∃ k, x.Denotes k ∧ y.Denotes k := by
  rcases h with rfl | h
  · by_cases hint : ∃ k, x = .int k
    · obtain ⟨k, rfl⟩ := hint
      exact .inr ⟨k, .int k, .int k⟩
    · have hn : ∀ k, x ≠ .int k := fun k hk => hint ⟨k, hk⟩
      exact .inl ⟨recoded_self hn fun c _ => foldedOrSame_self c,
        recoded_self hn fun c _ => foldedOrSame_self c⟩
  · cases h with
    | @literal k _ _ h => exact .inr ⟨k, .int k, h⟩
    | node h => exact .inl ⟨h.imp fun _ _ _ => .inr, h.flip_of fun _ _ _ => .inr⟩

/-- A folded program does what the program does, and the other way around. -/
theorem Program.redoneBy_folded {p q : Program} (h : List.Forall₂ Node.Folded p q) :
    p.RedoneBy Node.FoldedOrSame q ∧ q.RedoneBy (flip Node.FoldedOrSame) p := by
  have hpq : List.Forall₂ Node.FoldedOrSame p q := h.imp fun _ _ hxy => .inr hxy
  have hqp : List.Forall₂ (flip Node.FoldedOrSame) q p := forall₂_flip_of hpq fun _ _ _ hxy => hxy
  refine ⟨redoneBy_of_related Node.foldedOrSame_self (fun {x y} hxy => ?_) hpq,
    redoneBy_of_related (S := flip Node.FoldedOrSame) Node.foldedOrSame_self (fun {y x} hxy => ?_)
      hqp⟩
  · rcases hxy.cases with ⟨hsame, -⟩ | ⟨k, hx, hy⟩
    · exact .inl hsame
    · exact .inr (hx.redoes hy)
  · rcases Node.FoldedOrSame.cases hxy with ⟨-, hsame⟩ | ⟨k, hx, hy⟩
    · exact .inl hsame
    · exact .inr (hy.redoes hx)

end BoxScript
