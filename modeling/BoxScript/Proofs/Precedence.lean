import BoxScript.Proofs.Rereading
import Mathlib.Data.List.Induction

/-!
# Operators between operands

Operands with operators between them are read as one tree, and which one it is can be said without
a parser: the last of the loosest operators is applied last, to what stands before it and what
stands behind it. So tighter operators are applied before looser ones, and operators of one tier
from left to right.
-/

namespace BoxScript

/-! ## The rule -/

/-- The rule for operators between operands: of the loosest operators the last one is applied last.
Its left operand is what stands before it, its right operand what stands behind it. -/
inductive Grouped : Node → List (BinOp × Node) → Node → Prop
  | operand (node : Node) : Grouped node [] node
  | apply {first second left right : Node} {before after : List (BinOp × Node)} {op : BinOp}
    (hleft : Grouped first before left) (hright : Grouped second after right)
    (hbefore : ∀ l ∈ before, l.1.tier.rank ≤ op.tier.rank)
    (hafter : ∀ l ∈ after, l.1.tier.rank < op.tier.rank) :
    Grouped first (before ++ (op, second) :: after) (.binary op left right)

namespace Grouped

variable {first node : Node} {links : List (BinOp × Node)}

/-- One more operator with its operand at the end groups as well. -/
theorem snoc (h : Grouped first links node) (op : BinOp) (second : Node) :
    ∃ node', Grouped first (links ++ [(op, second)]) node' := by
  induction h with
  | operand first => exact ⟨_, .apply (.operand first) (.operand second) nofun nofun⟩
  | @apply first second' left right before after op' hleft hright hbefore hafter _ ih =>
    by_cases hlooser : op'.tier.rank ≤ op.tier.rank
    · refine ⟨_, .apply (.apply hleft hright hbefore hafter) (.operand second) ?_ nofun⟩
      intro l hl
      rcases List.mem_append.1 hl with hl | hl
      · exact Nat.le_trans (hbefore l hl) hlooser
      rcases List.mem_cons.1 hl with rfl | hl
      · exact hlooser
      · exact Nat.le_trans (Nat.le_of_lt (hafter l hl)) hlooser
    · obtain ⟨right', hright'⟩ := ih
      rw [List.append_assoc, List.cons_append]
      refine ⟨_, .apply hleft hright' hbefore fun l hl => ?_⟩
      rcases List.mem_append.1 hl with hl | hl
      · exact hafter l hl
      · rw [List.mem_singleton.1 hl]
        exact Nat.lt_of_not_le hlooser

theorem exists_node (first : Node) (links : List (BinOp × Node)) :
    ∃ node, Grouped first links node := by
  induction links using List.reverseRecOn with
  | nil => exact ⟨first, .operand first⟩
  | append_singleton links link ih =>
    obtain ⟨node, hnode⟩ := ih
    exact hnode.snoc link.1 link.2

/-- There is one place at which the last of the loosest operators stands. -/
theorem split_unique {before before' after after' : List (BinOp × Node)} {l l' : BinOp × Node}
    (h : before ++ l :: after = before' ++ l' :: after')
    (hbefore : ∀ x ∈ before, x.1.tier.rank ≤ l.1.tier.rank)
    (hafter : ∀ x ∈ after, x.1.tier.rank < l.1.tier.rank)
    (hbefore' : ∀ x ∈ before', x.1.tier.rank ≤ l'.1.tier.rank)
    (hafter' : ∀ x ∈ after', x.1.tier.rank < l'.1.tier.rank) :
    before = before' ∧ l = l' ∧ after = after' := by
  -- a second split would be before the first one or behind it, and one of two operators would bind
  -- more tightly than the other
  rcases List.append_eq_append_iff.1 h with ⟨between, rfl, hbetween⟩ | ⟨between, rfl, hbetween⟩
  · cases between with
    | nil =>
      cases hbetween
      simp
    | cons _ between =>
      cases hbetween
      have hle := hbefore' l (by simp)
      have hlt := hafter l' (by simp)
      omega
  · cases between with
    | nil =>
      cases hbetween
      simp
    | cons _ between =>
      cases hbetween
      have hle := hbefore l' (by simp)
      have hlt := hafter' l (by simp)
      omega

theorem unique (h : Grouped first links node) {node' : Node} (h' : Grouped first links node') :
    node = node' := by
  induction h generalizing node' with
  | operand first =>
    generalize hlinks : [] = links at h'
    cases h' with
    | operand => rfl
    | apply => simp at hlinks
  | @apply first second left right before after op hleft hright hbefore hafter ihl ihr =>
    generalize hlinks : before ++ (op, second) :: after = links at h'
    cases h' with
    | operand => simp at hlinks
    | apply hleft' hright' hbefore' hafter' =>
      obtain ⟨rfl, heq, rfl⟩ := split_unique hlinks hbefore hafter hbefore' hafter'
      cases heq
      rw [ihl hleft', ihr hright']

end Grouped

/-! ## Reading operands and operators -/

/-- The tokens that an expression can go on with. -/
def Token.GoesOn (u : Token) : Prop :=
  u = .sign .lParen ∨ u.applies = true ∨ ∃ op : BinOp, u = .sign op.sign

/-- Tokens that are read as an operand when nothing stands behind them. -/
structure Operand (size : Nat) where
  tokens : Tokens
  node : Node
  read : Gives (unary size negated tokens) (·.Is node [])

/-- An operator, its place, and the operand behind it. -/
structure Link (size : Nat) where
  op : BinOp
  place : Span
  operand : Operand size

variable {size : Nat}

/-- The tokens of an operator and of the operand behind it. -/
def Link.tokens (link : Link size) : Tokens :=
  (.sign link.op.sign, link.place) :: link.operand.tokens

/-- The operator with the tree of the operand behind it. -/
def Link.applied (link : Link size) : BinOp × Node := (link.op, link.operand.node)

/-- The tokens of operands with operators between them. -/
def Operand.row (first : Operand size) (links : List (Link size)) : Tokens :=
  first.tokens ++ links.flatMap Link.tokens

/-- A row is written as its two parts with the operator between them. -/
theorem Operand.words_row (first : Operand size) (before : List (Link size)) (link : Link size)
    (after : List (Link size)) : (first.row (before ++ link :: after)).words =
      (first.row before).words ++ .sign link.op.sign :: (link.operand.row after).words := by
  simp [Operand.row, Link.tokens, Tokens.words]

/-- What does not go on with an expression stops operators of every rank. -/
theorem stops_of_not_goesOn {next : Option Token} (h : ∀ u ∈ next, ¬ u.GoesOn) (k : Nat) :
    Stops k next := by
  intro u hu
  obtain ⟨hparen, happlies, hop⟩ : u ≠ .sign .lParen ∧ ¬ u.applies = true ∧
      ¬ ∃ op : BinOp, u = .sign op.sign := by simpa [Token.GoesOn] using h u hu
  refine ⟨hparen, fun _ => Bool.eq_false_iff.2 happlies, fun t _ => ?_⟩
  exact Option.eq_none_iff_forall_ne_some.2 fun op heq => hop ⟨op, (BinOp.of_op? heq).2⟩

/-- An operand is an expression of its own before everything that operands end before. -/
theorem Operand.fits (o : Operand size) : Fits 1 o.node o.tokens.words := by
  obtain ⟨p, hp, hnode, hrest⟩ := o.read
  obtain ⟨w, hw, hreads⟩ := (exprsTaken (o.tokens.length + 1)).unary (Nat.lt_succ_self _) p hp
  rw [hrest] at hw
  have hwords : o.tokens.words = w := hw.trans (List.append_nil w)
  rw [hwords]
  exact fits_of_unary fun hnext => hnode ▸ hreads.before hnext

/-- What follows the rule is an expression as loose as its operators. -/
theorem Grouped.fits {n : Node} {ls : List (BinOp × Node)} {node : Node} (h : Grouped n ls node)
    {first : Operand size} {links : List (Link size)} (hfirst : first.node = n)
    (hlinks : links.map Link.applied = ls) {k : Nat} (hk : 1 ≤ k)
    (hloose : ∀ l ∈ ls, l.1.tier.rank < k) : Fits k node (first.row links).words := by
  -- by the grouping: the operator that binds least has the rest of its row on both sides
  induction h generalizing first links k with
  | operand n =>
    cases List.map_eq_nil_iff.1 hlinks
    subst hfirst
    simpa [Operand.row] using first.fits.mono hk
  | @apply n second left right before after op hleft hright hbefore hafter ihl ihr =>
    obtain ⟨before, further, rfl, rfl, hfurther⟩ := List.map_eq_append_iff.1 hlinks
    obtain ⟨link, after, rfl, hlink, rfl⟩ := List.map_eq_cons_iff.1 hfurther
    cases hlink
    have ht := link.op.tier_ne_unary
    have hleft : Fits (link.op.tier.rank + 1) left (first.row before).words :=
      ihl hfirst rfl (by omega) fun l hl => Nat.lt_succ_of_le (hbefore l hl)
    have hright : Fits link.op.tier.rank right (link.operand.row after).words :=
      ihr rfl rfl (Tier.rank_pos ht) hafter
    have hfits : Fits (link.op.tier.rank + 1) (.binary link.op left right)
        (first.row (before ++ link :: after)).words := by
      rw [Operand.words_row]
      refine fits_of_operands ht fun hnext => .operator ?_ link.op.op?_sign ?_
      · exact hleft.operands ht (Nat.le_refl _) (stops_operator link.op)
      · have hrank := Tier.rank_tighter ht
        exact hright.tier (by omega) (by rwa [hrank])
    exact hfits.mono (hloose (link.op, link.operand.node) (by simp))

/-- **Operators between operands are read by the rule**: whatever operands and operators there are,
there is one tree that follows the rule, and an expression takes all of them and is that tree. -/
theorem expr_grouped (first : Operand size) (links : List (Link size)) (rest : Tokens)
    (hrest : ∀ u ∈ rest.peek, ¬ u.GoesOn) :
    ∃ node, (∀ node', Grouped first.node (links.map Link.applied) node' ↔ node' = node) ∧
      Gives (expr size negated (first.row links ++ rest)) (·.Is node rest) := by
  obtain ⟨node, hnode⟩ := Grouped.exists_node first.node (links.map Link.applied)
  refine ⟨node, fun node' => ⟨fun h => h.unique hnode, fun h => h ▸ hnode⟩, ?_⟩
  have hfits : Fits 5 node (first.row links).words :=
    hnode.fits rfl rfl (by decide) fun l _ => by cases l.1 <;> decide
  have hreads : Reads (.expr node) (first.row links).words rest.peek :=
    hfits.tier (Nat.le_refl _) (stops_of_not_goesOn hrest _)
  rw [expr_eq]
  exact parses_of_derives hreads _ rest ⟨_, rfl, rfl⟩ rfl

theorem gives_int (n : Int64) (s : Span) :
    Gives (unary size negated [(.int n, s)]) (·.Is (.int n) []) := by
  have hreads : Reads (.tier .unary (.int n)) [.int n] none := .unary (.applied (.int n)) nofun
  have hgives : Gives (tier size negated .unary _) _ :=
    parses_of_derives hreads [(.int n, s)] [] ⟨[(.int n, s)], rfl, rfl⟩ rfl
  rwa [tier, dif_pos rfl] at hgives

/-- `2 ** 3 ** 2 - 4 * 5` before a closing parenthesis -/
theorem expr_grouped_powers :
    Gives (expr 0 negated
        [(.int 2, ⟨0, 1⟩), (.sign .starStar, ⟨2, 4⟩), (.int 3, ⟨5, 6⟩), (.sign .starStar, ⟨7, 9⟩),
          (.int 2, ⟨10, 11⟩), (.sign .minus, ⟨12, 13⟩), (.int 4, ⟨14, 15⟩),
          (.sign .star, ⟨16, 17⟩), (.int 5, ⟨18, 19⟩), (.sign .rParen, ⟨19, 20⟩)])
      (·.Is (.binary .sub (.binary .pow (.binary .pow (.int 2) (.int 3)) (.int 2))
        (.binary .mul (.int 4) (.int 5))) [(.sign .rParen, ⟨19, 20⟩)]) := by
  let operand (n : Int64) (place : Nat) : Operand 0 :=
    ⟨[(.int n, ⟨place, place + 1⟩)], .int n, gives_int n _⟩
  let links : List (Link 0) := [⟨.pow, ⟨2, 4⟩, operand 3 5⟩, ⟨.pow, ⟨7, 9⟩, operand 2 10⟩,
    ⟨.sub, ⟨12, 13⟩, operand 4 14⟩, ⟨.mul, ⟨16, 17⟩, operand 5 18⟩]
  have hends : ∀ u ∈ Tokens.peek [(.sign .rParen, ⟨19, 20⟩)], ¬ u.GoesOn := by
    rintro _ ⟨⟩ (h | h | ⟨op, h⟩)
    · cases h
    · cases h
    · cases op <;> cases h
  obtain ⟨node, hrule, hgives⟩ := expr_grouped (operand 2 0) links _ hends
  have hpower : Grouped (.int 2) ([] ++ (.pow, .int 3) :: []) _ :=
    .apply (.operand _) (.operand _) nofun nofun
  have hpowers : Grouped (.int 2) ([(.pow, .int 3)] ++ (.pow, .int 2) :: []) _ :=
    .apply hpower (.operand _) (by decide) nofun
  have hproduct : Grouped (.int 4) ([] ++ (.mul, .int 5) :: []) _ :=
    .apply (.operand _) (.operand _) nofun nofun
  have hgrouped : Grouped (.int 2)
      ([(.pow, .int 3), (.pow, .int 2)] ++ (.sub, .int 4) :: [(.mul, .int 5)]) _ :=
    .apply hpowers hproduct (by decide) (by decide)
  rw [(hrule _).1 hgrouped]
  exact hgives

end BoxScript
