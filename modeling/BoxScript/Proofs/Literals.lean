import BoxScript.Proofs.Folding
import BoxScript.Proofs.Layout
import BoxScript.Proofs.Reading

/-!
# Minus signs before literals

The parser folds a minus sign before an integer into the integer. Were it to make nodes of all minus
signs, it would take the same tokens, fail with the same errors and read the same trees but for
folding. As in `BoxScript.Proofs.Grammar` the parsers are gone through one by one, each with the
others taken for granted on fewer tokens. No integer in a source is the least one, so none is ever
folded into an integer that it does not denote.
-/

namespace BoxScript

/-! ## Two readings of the same tokens -/

/-- The least integer is not among the tokens. -/
def Tokens.Sound (ts : Tokens) : Prop := ∀ n, .int n ∈ ts.words → n ≠ Int64.minValue

theorem Tokens.Sound.of_words {ts rest : Tokens} {w : List Token} (hs : ts.Sound)
    (h : ts.words = w ++ rest.words) : rest.Sound :=
  fun n hn => hs n (h ▸ List.mem_append_right w hn)

theorem Tokens.Sound.tail {front : Token × Span} {rest : Tokens}
    (hs : Tokens.Sound (front :: rest)) : Tokens.Sound rest :=
  hs.of_words (w := [front.1]) rfl

section Readings

variable {α β γ δ : Type} {V : α → β → Prop} {Q : γ → δ → Prop} {ts : Tokens}

theorem Concur.imp {ε : Type} {V' : α → β → Prop} {x : Except ε α} {y : Except ε β}
    (h : Concur V x y) (hV : ∀ a b, V a b → V' a b) : Concur V' x y := by
  cases h with
  | error e => exact .error e
  | ok hab => exact .ok (hV _ _ hab)

theorem Concur.bind {ε : Type} {x : Except ε α} {y : Except ε β} {f : α → Except ε γ}
    {g : β → Except ε δ} (h : Concur V x y) (hf : ∀ a b, V a b → Concur Q (f a) (g b)) :
    Concur Q (x >>= f) (y >>= g) := by
  cases h with
  | error e => exact .error e
  | ok hab => exact hf _ _ hab

/-- Both readings fail with the same error, or they end at the same place, with related values. -/
def ReadAlike (V : α → β → Prop) (x : Reading α ts) (y : Reading β ts) : Prop :=
  Concur (fun p q => V p.value q.value ∧ q.rest = p.rest ∧ p.rest.Sound) x y

/-- The same for readings that may take no token. -/
def PassAlike (V : α → β → Prop) (x : Passing α ts) (y : Passing β ts) : Prop :=
  Concur (fun p q => V p.value q.value ∧ q.rest = p.rest ∧ p.rest.Sound) x y

theorem readAlike_ok {a : α} {b : β} {rest : Tokens} {h h' : rest.length < ts.length}
    (hab : V a b) (hs : rest.Sound) :
    ReadAlike V (.ok ⟨a, rest, h⟩ : Reading α ts) (.ok ⟨b, rest, h'⟩) := .ok ⟨hab, rfl, hs⟩

theorem passAlike_ok {a : α} {b : β} {rest : Tokens} {h h' : rest.length ≤ ts.length}
    (hab : V a b) (hs : rest.Sound) :
    PassAlike V (.ok ⟨a, rest, h⟩ : Passing α ts) (.ok ⟨b, rest, h'⟩) := .ok ⟨hab, rfl, hs⟩

theorem readAlike_error (e : SyntaxError) :
    ReadAlike V (.error e : Reading α ts) (.error e : Reading β ts) := .error e

theorem passAlike_error (e : SyntaxError) :
    PassAlike V (.error e : Passing α ts) (.error e : Passing β ts) := .error e

/-- The readings go on at the same place. -/
theorem ReadAlike.next {x : Reading α ts} {y : Reading β ts}
    {f : Parsed α ts → Except SyntaxError γ} {g : Parsed β ts → Except SyntaxError δ}
    (h : ReadAlike V x y) (hf : ∀ a b rest (shorter : rest.length < ts.length), V a b →
      rest.Sound → Concur Q (f ⟨a, rest, shorter⟩) (g ⟨b, rest, shorter⟩)) :
    Concur Q (x >>= f) (y >>= g) := by
  refine Concur.bind h ?_
  rintro ⟨a, rest, shorter⟩ ⟨b, _, shorter'⟩ ⟨hab, hrest, hs⟩
  dsimp only at hrest
  subst hrest
  exact hf a b _ shorter hab hs

/-- Two readings that are alike hand alike results to what comes next. -/
theorem PassAlike.next {x : Passing α ts} {y : Passing β ts}
    {f : Passed α ts → Except SyntaxError γ} {g : Passed β ts → Except SyntaxError δ}
    (h : PassAlike V x y) (hf : ∀ a b rest (within : rest.length ≤ ts.length), V a b →
      rest.Sound → Concur Q (f ⟨a, rest, within⟩) (g ⟨b, rest, within⟩)) :
    Concur Q (x >>= f) (y >>= g) := by
  refine Concur.bind h ?_
  rintro ⟨a, rest, within⟩ ⟨b, _, within'⟩ ⟨hab, hrest, hs⟩
  dsimp only at hrest
  subst hrest
  exact hf a b _ within hab hs

/-- The same reading on both sides. -/
theorem concur_next {x : Reading α ts} {f : Parsed α ts → Except SyntaxError γ}
    {g : Parsed α ts → Except SyntaxError δ} (h : Yields (·.rest.Sound) x)
    (hf : ∀ a rest (shorter : rest.length < ts.length), rest.Sound →
      Concur Q (f ⟨a, rest, shorter⟩) (g ⟨a, rest, shorter⟩)) : Concur Q (x >>= f) (x >>= g) := by
  cases x with
  | error e => exact .error e
  | ok p => exact hf p.value p.rest p.shorter (h p rfl)

end Readings

/-! ## Single tokens -/

section Tokens

variable {size : Nat} {ts : Tokens}

theorem sound_expect (t : Token) (hs : ts.Sound) : Yields (·.rest.Sound) (expect size t ts) :=
  fun p hp => hs.of_words (w := [t]) (taken_expect t ts p hp)

theorem sound_expectName (wanted : Wanted) (hs : ts.Sound) :
    Yields (·.rest.Sound) (expectName size wanted ts) :=
  fun p hp => hs.of_words (w := [.ident p.value]) (taken_expectName wanted ts p hp)

theorem sound_paramList (hs : ts.Sound) : Yields (·.rest.Sound) (paramList size ts) :=
  fun p hp => hs.of_words (taken_paramList ts p hp)

theorem sound_accept {t : Token} {rest : Tokens} {found : Bool} {h : rest.length ≤ ts.length}
    (hs : ts.Sound) (haccept : accept t ts = ⟨found, rest, h⟩) : rest.Sound := by
  rcases taken_accept haccept with ⟨-, hwords⟩ | ⟨-, rfl⟩
  · exact hs.of_words (w := [t]) hwords
  · exact hs

theorem sound_modifiers (isConst isAbstract : Bool) (hs : ts.Sound) :
    (modifiers isConst isAbstract ts).rest.Sound := by
  obtain ⟨w, hw, -, -⟩ := taken_modifiers isConst isAbstract ts
  exact hs.of_words hw

theorem sound_memberAccess (hs : ts.Sound) : (memberAccess ts).rest.Sound := by
  obtain ⟨w, hw, -⟩ := taken_memberAccess ts
  exact hs.of_words hw

end Tokens

/-! ## Expressions -/

section Parser

variable {size : Nat}

/-- Members are found on trees of the same kind. -/
theorem memberField_alike (dot : Span) {x y : Node} (h : x.Folded y) (name : String) :
    Concur Node.Folded (memberField dot x name) (memberField dot y name) := by
  cases h with
  | literal _ h => cases h <;> exact .error _
  | node h =>
    cases h with
    | var holder => exact .ok (.node (.field holder name))
    | _ => exact .error _

theorem memberCall_alike (dot : Span) {x y : Node} (h : x.Folded y) {call call' : Invocation}
    (hcall : call.Recoded Node.Folded call') :
    Concur Node.Folded (memberCall dot x call) (memberCall dot y call') := by
  cases h with
  | literal _ h => cases h <;> exact .error _
  | node h =>
    cases h with
    | var holder => exact .ok (.node (.method _ hcall .nil))
    | create box => exact .ok (.node (.method _ hcall .nil))
    | method receiver hfirst hfurther =>
      have hcalls := List.rel_append hfurther (.cons hcall .nil)
      exact .ok (.node (.method receiver hfirst hcalls))
    | _ => exact .error _

variable (size) in
/-- The parsers of expressions read alike on fewer than `n` tokens. -/
structure ExprsAlike (n : Nat) : Prop where
  expr : ∀ {ts}, ts.length < n → ts.Sound →
    ReadAlike Node.Folded (expr size negated ts) (expr size .negate ts)
  tier : ∀ (t : Tier) {ts}, ts.length < n → ts.Sound →
    ReadAlike Node.Folded (tier size negated t ts) (tier size .negate t ts)
  operators : ∀ (t : Tier) {x y ts}, x.Folded y → ts.length < n → ts.Sound →
    PassAlike Node.Folded (operators size negated t x ts) (operators size .negate t y ts)
  unary : ∀ {ts}, ts.length < n → ts.Sound →
    ReadAlike Node.Folded (unary size negated ts) (unary size .negate ts)
  applied : ∀ {x y ts}, x.Folded y → ts.length < n → ts.Sound →
    PassAlike Node.Folded (applied size negated x ts) (applied size .negate y ts)
  items : ∀ (close : Sign) {ts}, ts.length < n → ts.Sound →
    ReadAlike (List.Forall₂ Node.Folded) (items size negated close ts) (items size .negate close ts)
  moreItems : ∀ (close : Sign) {ts}, ts.length < n → ts.Sound →
    ReadAlike (List.Forall₂ Node.Folded) (moreItems size negated close ts)
      (moreItems size .negate close ts)

section Step

variable {n : Nat} {ts : Tokens}

theorem operators_alike (B : ExprsAlike size n) (hn : ts.length ≤ n) (hs : ts.Sound) (t : Tier)
    {x y : Node} (hxy : x.Folded y) :
    PassAlike Node.Folded (operators size negated t x ts) (operators size .negate t y ts) := by
  cases ts with
  | nil =>
    rw [operators, operators]
    exact passAlike_ok hxy hs
  | cons front rest =>
    obtain ⟨token, span⟩ := front
    rw [List.length_cons] at hn
    rw [operators, operators]
    cases t.op? token with
    | none => exact passAlike_ok hxy hs
    | some op =>
      refine (B.tier t.tighter (by omega) hs.tail).next fun a b rest h₁ hab hs => ?_
      have hboth : (Node.binary op x a).Folded (.binary op y b) := .node (.binary op hxy hab)
      exact (B.operators t hboth (by omega) hs).next fun _ _ _ _ h hs => passAlike_ok h hs

theorem optionalArgs_alike (B : ExprsAlike size n) (hn : ts.length ≤ n) (hs : ts.Sound) :
    PassAlike (Option.Rel (List.Forall₂ Node.Folded)) (optionalArgs size negated ts)
      (optionalArgs size .negate ts) := by
  fun_cases optionalArgs size negated ts <;> rw [optionalArgs, optionalArgs] <;> try assumption
  · next span rest =>
    rw [List.length_cons] at hn
    exact (B.items .rParen (by omega) hs.tail).next fun _ _ _ _ h hs => passAlike_ok (.some h) hs
  · exact passAlike_ok .none hs

/-- What is applied to an operand is read alike. -/
theorem applied_alike (B : ExprsAlike size n) (hn : ts.length ≤ n) (hs : ts.Sound) {x y : Node}
    (hxy : x.Folded y) :
    PassAlike Node.Folded (applied size negated x ts) (applied size .negate y ts) := by
  fun_cases applied size negated x ts <;> rw [applied, applied] <;> try assumption
  · -- an index
    next span rest =>
    rw [List.length_cons] at hn
    refine (B.expr (by omega) hs.tail).next fun a b rest h₁ hab hs => ?_
    refine concur_next (sound_expect _ hs) fun _ rest h₂ hs => ?_
    have hindex : (Node.index x a).Folded (.index y b) := .node (.index hxy hab)
    exact (B.applied hindex (by omega) hs).next fun _ _ _ _ h hs => passAlike_ok h hs
  · -- an extension
    next span rest =>
    rw [List.length_cons] at hn
    refine concur_next (sound_expectName _ hs.tail) fun name rest h₁ hs => ?_
    refine (optionalArgs_alike B (by omega) hs).next fun args args' rest h₂ hargs hs => ?_
    have hgiven : List.Forall₂ Node.Folded (args.getD []) (args'.getD []) := by
      cases hargs with
      | none => exact .nil
      | some h => exact h
    have hextension : (Node.extension x name (args.getD [])).Folded
        (.extension y name (args'.getD [])) := .node (.extension name hxy hgiven)
    exact (B.applied hextension (by omega) hs).next fun _ _ _ _ h hs => passAlike_ok h hs
  · -- a field or a method
    next dot rest =>
    rw [List.length_cons] at hn
    refine concur_next (sound_expectName _ hs.tail) fun name rest h₁ hs => ?_
    refine (optionalArgs_alike B (by omega) hs).next fun args args' rest h₂ hargs hs => ?_
    cases hargs with
    | none =>
      refine (memberField_alike dot hxy name).bind fun member member' hmember => ?_
      exact (B.applied hmember (by omega) hs).next fun _ _ _ _ h hs => passAlike_ok h hs
    | some h =>
      refine (memberCall_alike dot hxy (.of name h)).bind fun member member' hmember => ?_
      exact (B.applied hmember (by omega) hs).next fun _ _ _ _ h hs => passAlike_ok h hs
  · exact passAlike_ok hxy hs

theorem inParens_alike (B : ExprsAlike size n) (hn : ts.length ≤ n) (hs : ts.Sound) :
    ReadAlike Node.Folded (inParens size negated ts) (inParens size .negate ts) := by
  rw [inParens, inParens]
  refine concur_next (sound_expect _ hs) fun _ rest h₁ hs => ?_
  refine (B.expr (by omega) hs).next fun a b rest h₂ hab hs => ?_
  exact concur_next (sound_expect _ hs) fun _ rest h₃ hs => readAlike_ok hab hs

/-- Primaries are read alike. -/
theorem primary_alike (B : ExprsAlike size n) (hn : ts.length ≤ n) (hs : ts.Sound) :
    ReadAlike Node.Folded (primary size negated ts) (primary size .negate ts) := by
  fun_cases primary size negated ts <;> rw [primary, primary] <;> try assumption
  -- the number of a token is not the least one, so that it may be negated
  · next k _ _ =>
    exact readAlike_ok (.literal (hs k (List.mem_cons_self ..)) (.int k)) hs.tail
  · exact readAlike_ok (.node (.str _)) hs.tail
  · next name _ _ =>
    rw [List.length_cons] at hn
    refine (optionalArgs_alike B (by omega) hs.tail).next fun args args' rest h₁ hargs hs => ?_
    cases hargs with
    | none => exact readAlike_ok (.node (.var name)) hs
    | some h => exact readAlike_ok (.node (.call name h)) hs
  · rw [List.length_cons] at hn
    refine (B.expr (by omega) hs.tail).next fun a b rest h₁ hab hs => ?_
    exact concur_next (sound_expect _ hs) fun _ rest h₂ hs => readAlike_ok hab hs
  · rw [List.length_cons] at hn
    exact (B.items .rBracket (by omega) hs.tail).next fun _ _ _ _ h hs =>
      readAlike_ok (.node (.array h)) hs
  · exact concur_next (sound_expectName _ hs.tail) fun _ _ _ hs =>
      readAlike_ok (.node (.create _)) hs
  · exact readAlike_ok (.node .input) hs.tail
  · rw [List.length_cons] at hn
    exact (inParens_alike B (by omega) hs.tail).next fun _ _ _ _ h hs =>
      readAlike_ok (.node (.readLines h)) hs
  · rw [List.length_cons] at hn
    exact (inParens_alike B (by omega) hs.tail).next fun _ _ _ _ h hs =>
      readAlike_ok (.node (.readText h)) hs
  · rw [List.length_cons] at hn
    exact (inParens_alike B (by omega) hs.tail).next fun _ _ _ _ h hs =>
      readAlike_ok (.node (.fileExists h)) hs
  · exact readAlike_error _

/-- This is the only place where the two differ. -/
theorem unary_alike (B : ExprsAlike size n) (hn : ts.length ≤ n) (hs : ts.Sound) :
    ReadAlike Node.Folded (unary size negated ts) (unary size .negate ts) := by
  fun_cases unary size negated ts <;> rw [unary, unary] <;> try assumption
  · rw [List.length_cons] at hn
    exact (B.unary (by omega) hs.tail).next fun _ _ _ _ h hs => readAlike_ok h.minus hs
  · rw [postfixed, postfixed]
    refine (primary_alike B hn hs).next fun a b rest h₁ hab hs => ?_
    exact (B.applied hab (by omega) hs).next fun _ _ _ _ h hs => readAlike_ok h hs

/-- Operands are read alike on every tier, and a minus is where the two parsers part. -/
theorem tier_alike (B : ExprsAlike size n) (hn : ts.length ≤ n) (hs : ts.Sound) (t : Tier) :
    ReadAlike Node.Folded (tier size negated t ts) (tier size .negate t ts) := by
  -- from the tightest tier to the loosest
  have loosen : ∀ {t : Tier}, t ≠ .unary →
      ReadAlike Node.Folded (tier size negated t.tighter ts) (tier size .negate t.tighter ts) →
      ReadAlike Node.Folded (tier size negated t ts) (tier size .negate t ts) := by
    intro t ht htighter
    rw [tier, dif_neg ht, tier.eq_def size .negate t, dif_neg ht]
    refine htighter.next fun a b rest h₁ hab hs => ?_
    exact (B.operators t hab (by omega) hs).next fun _ _ _ _ h hs => readAlike_ok h hs
  have hunary : ReadAlike Node.Folded (tier size negated .unary ts)
      (tier size .negate .unary ts) := by
    rw [tier, dif_pos rfl, tier, dif_pos rfl]
    exact unary_alike B hn hs
  have hproduct := loosen (t := .product) (by decide) hunary
  have hsum := loosen (t := .sum) (by decide) hproduct
  have hcomparison := loosen (t := .comparison) (by decide) hsum
  cases t with
  | unary => exact hunary
  | product => exact hproduct
  | sum => exact hsum
  | comparison => exact hcomparison
  | logic => exact loosen (t := .logic) (by decide) hcomparison

theorem moreItems_alike (B : ExprsAlike size n) (hn : ts.length ≤ n) (hs : ts.Sound)
    (close : Sign) : ReadAlike (List.Forall₂ Node.Folded) (moreItems size negated close ts)
      (moreItems size .negate close ts) := by
  rw [moreItems, moreItems, expr, expr]
  refine (tier_alike B hn hs .logic).next fun a b rest h₁ hab hs => ?_
  dsimp only
  rcases hcomma : accept (.sign .comma) rest with ⟨goesOn, rest', h₂⟩
  have hs := sound_accept hs hcomma
  cases goesOn with
  | true =>
    exact (B.moreItems close (by omega) hs).next fun _ _ _ _ h hs => readAlike_ok (.cons hab h) hs
  | false =>
    exact concur_next (sound_expect _ hs) fun _ _ _ hs => readAlike_ok (.cons hab .nil) hs

theorem items_alike (B : ExprsAlike size n) (hn : ts.length ≤ n) (hs : ts.Sound) (close : Sign) :
    ReadAlike (List.Forall₂ Node.Folded) (items size negated close ts)
      (items size .negate close ts) := by
  rw [items, items]
  by_cases hclose : ts.peek = some (.sign close)
  · rw [if_pos hclose, if_pos hclose]
    exact concur_next (sound_expect _ hs) fun _ _ _ hs => readAlike_ok .nil hs
  · rw [if_neg hclose, if_neg hclose]
    exact moreItems_alike B hn hs close

end Step

variable (size) in
theorem exprsAlike (n : Nat) : ExprsAlike size n := by
  induction n with
  | zero => constructor <;> · intros; omega
  | succ n ih =>
    exact
      { expr := fun hn hs => by
          rw [expr, expr]
          exact tier_alike ih (Nat.le_of_lt_succ hn) hs .logic
        tier := fun t _ hn hs => tier_alike ih (Nat.le_of_lt_succ hn) hs t
        operators := fun t _ _ _ hxy hn hs => operators_alike ih (Nat.le_of_lt_succ hn) hs t hxy
        unary := fun hn hs => unary_alike ih (Nat.le_of_lt_succ hn) hs
        applied := fun hxy hn hs => applied_alike ih (Nat.le_of_lt_succ hn) hs hxy
        items := fun close _ hn hs => items_alike ih (Nat.le_of_lt_succ hn) hs close
        moreItems := fun close _ hn hs => moreItems_alike ih (Nat.le_of_lt_succ hn) hs close }

theorem expr_alike {ts : Tokens} (hs : ts.Sound) :
    ReadAlike Node.Folded (expr size negated ts) (expr size .negate ts) :=
  (exprsAlike size (ts.length + 1)).expr (Nat.lt_succ_self _) hs

/-! ## Statements -/

/-- Members of boxes that are alike but for folding. -/
structure Members.Folded (ms ms' : Members) : Prop where
  fields : List.Forall₂ (FieldDecl.Recoded Node.Folded) ms.fields ms'.fields
  methods : List.Forall₂ (MethodDecl.Recoded Node.Folded) ms.methods ms'.methods

theorem Members.Folded.addField {ms ms' : Members} (h : ms.Folded ms') {f f' : FieldDecl}
    (hf : f.Recoded Node.Folded f') : (ms.addField f).Folded (ms'.addField f') :=
  ⟨.cons hf h.fields, h.methods⟩

theorem Members.Folded.addMethod {ms ms' : Members} (h : ms.Folded ms') {f f' : MethodDecl}
    (hf : f.Recoded Node.Folded f') : (ms.addMethod f).Folded (ms'.addMethod f') :=
  ⟨h.fields, .cons hf h.methods⟩

variable (size) in
/-- The parsers of statements read alike on fewer than `n` tokens. -/
structure StatementsAlike (n : Nat) : Prop where
  statement : ∀ {ts}, ts.length < n → ts.Sound →
    ReadAlike Node.Folded (statement size negated ts) (statement size .negate ts)
  block : ∀ (elseToo : Bool) {ts}, ts.length < n → ts.Sound →
    PassAlike (List.Forall₂ Node.Folded) (block size negated elseToo ts)
      (block size .negate elseToo ts)
  routine : ∀ {ts}, ts.length < n → ts.Sound →
    ReadAlike (Routine.Recoded Node.Folded) (routine size negated ts) (routine size .negate ts)
  routineBody : ∀ {ts}, ts.length < n → ts.Sound →
    ReadAlike (List.Forall₂ Node.Folded) (routineBody size negated ts)
      (routineBody size .negate ts)
  members : ∀ {ts}, ts.length < n → ts.Sound →
    ReadAlike Members.Folded (members size negated ts) (members size .negate ts)

section Step

variable {n : Nat} {ts : Tokens}

theorem routine_alike (B : StatementsAlike size n) (hn : ts.length ≤ n) (hs : ts.Sound) :
    ReadAlike (Routine.Recoded Node.Folded) (routine size negated ts)
      (routine size .negate ts) := by
  rw [routine, routine]
  refine concur_next (sound_expectName _ hs) fun name rest h₁ hs => ?_
  refine concur_next (sound_paramList hs) fun params rest h₂ hs => ?_
  exact (B.routineBody (by omega) hs).next fun _ _ _ _ h hs =>
    readAlike_ok (.of name params h) hs

/-- Members are read alike. -/
theorem members_alike (B : StatementsAlike size n) (hn : ts.length ≤ n) (hs : ts.Sound) :
    ReadAlike Members.Folded (members size negated ts) (members size .negate ts) := by
  rw [members, members]
  by_cases hends : ts.peek = some (.keyword .endBlock)
  · rw [if_pos hends, if_pos hends]
    exact concur_next (sound_expect _ hs) fun _ _ _ hs => readAlike_ok ⟨.nil, .nil⟩ hs
  · rw [if_neg hends, if_neg hends]
    dsimp only [pure_bind]
    have hs := sound_memberAccess hs
    generalize memberAccess ts = found at hs ⊢
    obtain ⟨access, rest, h₁⟩ := found
    dsimp only at hs ⊢
    rcases habstract : accept (.keyword .abstract) rest with ⟨isAbstract, rest, h₂⟩
    have hs := sound_accept hs habstract
    dsimp only
    rcases hfunction : accept (.keyword .function) rest with ⟨isFunction, rest, h₃⟩
    have hs := sound_accept hs hfunction
    cases isFunction with
    | true =>
      cases isAbstract with
      | true =>
        -- an abstract function has no body
        dsimp only
        refine concur_next (sound_expectName _ hs) fun name rest h₄ hs => ?_
        dsimp only
        refine concur_next (sound_paramList hs) fun params rest h₅ hs => ?_
        refine (B.members (by omega) hs).next fun others others' rest h₆ hothers hs => ?_
        exact readAlike_ok (hothers.addMethod (.of access true (.of name params .nil))) hs
      | false =>
        refine (routine_alike B (by omega) hs).next fun r r' rest h₄ hr hs => ?_
        refine (B.members (by omega) hs).next fun others others' rest h₅ hothers hs => ?_
        exact readAlike_ok (hothers.addMethod (.of access false hr)) hs
    | false =>
      cases isAbstract with
      | true => exact .error _
      | false =>
        dsimp only
        refine concur_next (sound_expectName _ hs) fun name rest h₄ hs => ?_
        dsimp only
        refine concur_next (sound_expect _ hs) fun _ rest h₅ hs => ?_
        dsimp only
        refine (expr_alike hs).next fun init init' rest h₆ hinit hs => ?_
        refine (B.members (by omega) hs).next fun others others' rest h₇ hothers hs => ?_
        exact readAlike_ok (hothers.addField (.of name access hinit)) hs

theorem boxDeclaration_alike (B : StatementsAlike size n) (hn : ts.length ≤ n) (hs : ts.Sound) :
    ReadAlike Node.Folded (boxDeclaration size negated ts) (boxDeclaration size .negate ts) := by
  rw [boxDeclaration, boxDeclaration]
  have hs := sound_modifiers false false hs
  generalize modifiers false false ts = found at hs ⊢
  obtain ⟨⟨isConst, isAbstract⟩, rest, h₁⟩ := found
  dsimp only at hs ⊢
  refine concur_next (sound_expect _ hs) fun _ rest h₂ hs => ?_
  dsimp only
  refine concur_next (sound_expectName _ hs) fun name rest h₃ hs => ?_
  dsimp only
  rcases hcolon : accept (.sign .colon) rest with ⟨based, rest, h₄⟩
  have hs := sound_accept hs hcolon
  cases based with
  | true =>
    dsimp only
    refine concur_next (sound_expectName _ hs) fun base rest h₅ hs => ?_
    refine (B.members (by omega) hs).next fun ms ms' rest h₆ hms hs => ?_
    exact readAlike_ok (.node (.box (.of name (some base) _ _ hms.fields hms.methods))) hs
  | false =>
    refine (B.members (by omega) hs).next fun ms ms' rest h₅ hms hs => ?_
    exact readAlike_ok (.node (.box (.of name none _ _ hms.fields hms.methods))) hs

/-- Statements are read alike. -/
theorem statement_alike (B : StatementsAlike size n) (hn : ts.length ≤ n) (hs : ts.Sound) :
    ReadAlike Node.Folded (statement size negated ts) (statement size .negate ts) := by
  fun_cases statement size negated ts <;> rw [statement, statement] <;> try assumption
  -- `function`, `return`, `print`
  · rw [List.length_cons] at hn
    exact (B.routine (by omega) hs.tail).next fun _ _ _ _ h hs =>
      readAlike_ok (.node (.function h)) hs
  · exact readAlike_ok (.node .giveBackNone) hs.tail.tail
  · exact (expr_alike hs.tail).next fun _ _ _ _ h hs => readAlike_ok (.node (.giveBack h)) hs
  · exact (expr_alike hs.tail).next fun _ _ _ _ h hs => readAlike_ok (.node (.print true h)) hs
  · exact (expr_alike hs.tail).next fun _ _ _ _ h hs => readAlike_ok (.node (.print false h)) hs
  · -- `if`
    rw [List.length_cons] at hn
    refine (expr_alike hs.tail).next fun c c' rest h₁ hc hs => ?_
    refine (B.block true (by omega) hs).next fun yes yes' rest h₂ hyes hs => ?_
    dsimp only
    rcases helse : accept (.keyword .otherwise) rest with ⟨hasElse, rest, h₃⟩
    have hs := sound_accept hs helse
    cases hasElse with
    | true =>
      refine (B.block false (by omega) hs).next fun no no' rest h₄ hno hs => ?_
      exact concur_next (sound_expect _ hs) fun _ _ _ hs =>
        readAlike_ok (.node (.ifElse hc hyes hno)) hs
    | false =>
      exact concur_next (sound_expect _ hs) fun _ _ _ hs =>
        readAlike_ok (.node (.ifThen hc hyes)) hs
  · -- `while`
    rw [List.length_cons] at hn
    refine (expr_alike hs.tail).next fun c c' rest h₁ hc hs => ?_
    refine (B.block false (by omega) hs).next fun body body' rest h₂ hbody hs => ?_
    exact concur_next (sound_expect _ hs) fun _ _ _ hs =>
      readAlike_ok (.node (.whileDo hc hbody)) hs
  · -- `for`: its clauses are statements
    rw [List.length_cons] at hn
    refine (B.statement (by omega) hs.tail).next fun i i' rest h₁ hi hs => ?_
    refine concur_next (sound_expect _ hs) fun _ rest h₂ hs => ?_
    refine (expr_alike hs).next fun c c' rest h₃ hc hs => ?_
    refine concur_next (sound_expect _ hs) fun _ rest h₄ hs => ?_
    refine (B.statement (by omega) hs).next fun s s' rest h₅ hstep hs => ?_
    refine (B.block false (by omega) hs).next fun body body' rest h₆ hbody hs => ?_
    exact concur_next (sound_expect _ hs) fun _ _ _ hs =>
      readAlike_ok (.node (.forDo hi hc hstep hbody)) hs
  · exact (expr_alike hs.tail).next fun _ _ _ _ h hs => readAlike_ok (.node (.raise h)) hs
  · exact (expr_alike hs.tail).next fun _ _ _ _ h hs => readAlike_ok (.node (.importScript h)) hs
  · -- `extension`
    refine concur_next (sound_expect _ hs.tail) fun _ rest h₁ hs => ?_
    refine (expr_alike hs).next fun k k' rest h₂ hk hs => ?_
    refine concur_next (sound_expect _ hs) fun _ rest h₃ hs => ?_
    refine (expr_alike hs).next fun b b' rest h₄ hb hs => ?_
    refine concur_next (sound_expect _ hs) fun _ rest h₅ hs => ?_
    refine (expr_alike hs).next fun f f' rest h₆ hf hs => ?_
    refine concur_next (sound_expect _ hs) fun _ rest h₇ hs => ?_
    refine (expr_alike hs).next fun a a' rest h₈ ha hs => ?_
    exact concur_next (sound_expect _ hs) fun _ _ _ hs =>
      readAlike_ok (.node (.extend hk hb hf ha)) hs
  -- a definition begins with one of three words
  · exact boxDeclaration_alike B hn hs
  · exact boxDeclaration_alike B hn hs
  · exact boxDeclaration_alike B hn hs
  · exact (expr_alike hs.tail.tail).next fun _ _ _ _ h hs => readAlike_ok (.node (.assign _ h)) hs
  · exact (expr_alike hs.tail.tail.tail.tail).next fun _ _ _ _ h hs =>
      readAlike_ok (.node (.setField _ _ h)) hs
  · exact readAlike_error _
  -- anything else is an expression
  · exact expr_alike hs

theorem block_alike (B : StatementsAlike size n) (hn : ts.length ≤ n) (hs : ts.Sound)
    (elseToo : Bool) : PassAlike (List.Forall₂ Node.Folded) (block size negated elseToo ts)
      (block size .negate elseToo ts) := by
  cases ts with
  | nil =>
    rw [block, block]
    exact passAlike_error _
  | cons front rest =>
    obtain ⟨token, span⟩ := front
    rw [block, block]
    by_cases hends : endsBlock elseToo token = true
    · rw [if_pos hends, if_pos hends]
      exact passAlike_ok .nil hs
    · rw [if_neg hends, if_neg hends]
      refine (statement_alike B hn hs).next fun a b rest h₁ hab hs => ?_
      exact (B.block elseToo (by omega) hs).next fun _ _ _ _ h hs => passAlike_ok (.cons hab h) hs

/-- Trees that are alike are both `return` statements, or neither is one. -/
theorem Node.Folded.giveBack_or {x y : Node} (h : x.Folded y) :
    (∃ v v', x = .giveBack v ∧ y = .giveBack v') ∨
      (∀ v, x ≠ .giveBack v) ∧ ∀ v, y ≠ .giveBack v := by
  cases h with
  | literal _ h => cases h <;> exact .inr ⟨by simp, by simp⟩
  | node h =>
    cases h with
    | giveBackNone => exact .inl ⟨_, _, rfl, rfl⟩
    | giveBack => exact .inl ⟨_, _, rfl, rfl⟩
    | _ => exact .inr ⟨by simp, by simp⟩

theorem routineBody_alike (B : StatementsAlike size n) (hn : ts.length ≤ n) (hs : ts.Sound) :
    ReadAlike (List.Forall₂ Node.Folded) (routineBody size negated ts)
      (routineBody size .negate ts) := by
  fun_cases routineBody size negated ts <;> rw [routineBody, routineBody] <;> try assumption
  · exact readAlike_error _
  · exact readAlike_ok .nil hs.tail
  · refine (statement_alike B hn hs).next fun x y rest h₁ hxy hs => ?_
    dsimp only
    rcases hxy.giveBack_or with ⟨v, v', rfl, rfl⟩ | ⟨hx, hy⟩
    · exact readAlike_ok (.cons hxy .nil) hs
    · split
      · next v => exact absurd rfl (hx v)
      · exact (B.routineBody (by omega) hs).next fun _ _ _ _ h hs =>
          readAlike_ok (.cons hxy h) hs

end Step

variable (size) in
/-- Statements are read alike, by the number of the tokens that are left. -/
theorem statementsAlike (n : Nat) : StatementsAlike size n := by
  induction n with
  | zero => constructor <;> · intros; omega
  | succ n ih =>
    exact
      { statement := fun hn hs => statement_alike ih (Nat.le_of_lt_succ hn) hs
        block := fun elseToo _ hn hs => block_alike ih (Nat.le_of_lt_succ hn) hs elseToo
        routine := fun hn hs => routine_alike ih (Nat.le_of_lt_succ hn) hs
        routineBody := fun hn hs => routineBody_alike ih (Nat.le_of_lt_succ hn) hs
        members := fun hn hs => members_alike ih (Nat.le_of_lt_succ hn) hs }

/-- The trees of a program are the same but for folding, or both fail with the same error. -/
theorem statements_alike {ts : Tokens} (hs : ts.Sound) :
    Concur (List.Forall₂ Node.Folded) (statements size negated ts)
      (statements size .negate ts) := by
  induction hn : ts.length using Nat.strongRecOn generalizing ts with
  | ind n ih =>
    subst hn
    cases ts with
    | nil =>
      rw [statements, statements]
      exact .ok .nil
    | cons front others =>
      obtain ⟨token, span⟩ := front
      rw [statements, statements]
      have hfirst := (statementsAlike size _).statement (Nat.lt_succ_self _) hs
      refine hfirst.next fun a b rest h₁ hab hs => ?_
      exact (ih _ h₁ hs rfl).bind fun _ _ h => .ok (.cons hab h)

end Parser

/-! ## Whole sources -/

/-- A numeral has no sign, so it is not the least integer. -/
theorem ne_minValue_of_fit {k : Nat} {n : Int64} (h : fit k = some n) : n ≠ Int64.minValue := by
  rintro rfl
  unfold fit at h
  split at h
  · next hk =>
    injection h with h
    have htoInt := congrArg Int64.toInt h
    have hmax := hk.2
    rw [Int64.toInt_maxValue] at hmax
    rw [Int64.toInt_ofInt_of_le (by omega) (by omega), Int64.toInt_minValue] at htoInt
    omega
  · cases h

/-- No token is the least number, since its digits alone do not fit. -/
theorem Token.Spells.ne_minValue {n : Int64} {w : List Char} (h : (Token.int n).Spells w) :
    n ≠ Int64.minValue := by
  generalize ht : Token.int n = t at h
  cases h with
  | word =>
    unfold Token.ofWord at ht
    split at ht <;> cases ht
  | int _ _ hfit =>
    cases ht
    exact ne_minValue_of_fit hfit
  | str => cases ht
  | sign => cases ht

theorem sound_of_laid {offset : Nat} {cs : List Char} {ts : Tokens} (h : Laid offset cs ts) :
    ts.Sound := by
  induction h with
  | gap => exact fun n hn => absurd hn (List.not_mem_nil)
  | @token _ _ w rest t ts _ hw _ ih =>
    intro n hn
    rw [Tokens.words_cons] at hn
    rcases List.mem_cons.1 hn with hn | hn
    · subst hn
      cases hw with
      | token hspells => exact hspells.ne_minValue
    · exact ih n hn

/-- The least integer is in no source. -/
theorem sound_of_scan {source : String} {ts : Tokens} (h : Token.scan source = .ok ts) :
    ts.Sound := sound_of_laid (scan_eq_ok_iff.1 h)

/-- The program that a source text is, were every minus sign to make a node. -/
def Program.ofSourcePlain (source : String) : Except SyntaxError Program := do
  let tokens ← Token.scan source
  statements source.utf8ByteSize .negate tokens

/-- The integers of the folded program are within bounds, and whatever one of the programs does, the
other one does as well, on machines that are the same but for folding in the code on them. -/
structure Program.Folds (folded plain : Program) : Prop where
  inBounds : ∀ node ∈ folded, ∀ k, (Node.int k).Within node →
    -(2 ^ 63 - 1) ≤ k.toInt ∧ k.toInt ≤ 2 ^ 63 - 1
  redone : folded.RedoneBy Node.FoldedOrSame plain
  redoes : plain.RedoneBy (flip Node.FoldedOrSame) folded

theorem Program.folds_of_folded {folded plain : Program}
    (h : List.Forall₂ Node.Folded folded plain) : folded.Folds plain where
  inBounds node hnode k hk := by
    obtain ⟨y, -, hy⟩ := exists_related_of_mem h node hnode
    have hbounds := toInt_bounds_of_ne (hy.int_ne hk)
    rw [Int64.toInt_maxValue] at hbounds
    exact hbounds
  redone := (redoneBy_folded h).1
  redoes := (redoneBy_folded h).2

/-- **Folding minus signs into integers changes nothing**: no negation overflows wherever the parser
reads an operand behind a minus sign; a source is refused with the same error as without folding;
and if it is read, the program does on every machine what it would do without folding, and leaves
the machine the same but for folding in the code on it. The scripts that it imports are read as
ever. -/
theorem ofSource_folds (source : String) :
    (∀ tokens, Token.scan source = .ok tokens → ∀ rest : Tokens, rest <:+ tokens →
        ∀ operand, unary source.utf8ByteSize negated rest = .ok operand →
          ∀ k, operand.value = .int k → (-k).toInt = -k.toInt) ∧
      Concur Program.Folds (Program.ofSource source) (Program.ofSourcePlain source) ∧
      ∀ m : Machine, m.Recoded Node.FoldedOrSame m := by
  refine ⟨?_, ?_, Machine.recoded_self Node.foldedOrSame_self⟩
  -- what is negated is a number that was read, and no such number is the least one
  · intro tokens hscan rest hsuffix operand hoperand k hk
    have hrest : rest.Sound := by
      obtain ⟨before, rfl⟩ := hsuffix
      exact (sound_of_scan hscan).of_words List.map_append
    have halike := (exprsAlike source.utf8ByteSize _).unary (Nat.lt_succ_self _) hrest
    rw [hoperand] at halike
    generalize unary source.utf8ByteSize .negate rest = plain at halike
    cases halike with
    | ok h =>
      have hfolded := h.1
      rw [hk] at hfolded
      exact toInt_neg_of_ne (hfolded.int_ne .here)
  · unfold Program.ofSource Program.ofSourcePlain
    cases hscan : Token.scan source with
    | error e => exact .error e
    | ok tokens =>
      have halike : Concur (List.Forall₂ Node.Folded) (statements source.utf8ByteSize negated tokens)
          (statements source.utf8ByteSize .negate tokens) := statements_alike (sound_of_scan hscan)
      exact halike.imp fun _ _ => Program.folds_of_folded

namespace StoredMinus

/-- `function f() return -5` -/
def tokens : Tokens :=
  [(.keyword .function, ⟨0, 8⟩), (.ident "f", ⟨9, 10⟩), (.sign .lParen, ⟨10, 11⟩),
    (.sign .rParen, ⟨11, 12⟩), (.keyword .giveBack, ⟨13, 19⟩), (.sign .minus, ⟨20, 21⟩),
    (.int 5, ⟨21, 22⟩)]

/-- A function that returns a negative number. -/
def folded : Program := [.function ⟨"f", [], [.giveBack (some (.int (-5)))]⟩]

def plain : Program := [.function ⟨"f", [], [.giveBack (some (.negate (.int 5)))]⟩]

end StoredMinus

theorem ofSource_folds_stored :
    Program.ofSource "function f() return -5" = .ok StoredMinus.folded ∧
      Program.ofSourcePlain "function f() return -5" = .ok StoredMinus.plain ∧
      StoredMinus.folded.Folds StoredMinus.plain := by
  have hscan : Token.scan "function f() return -5" = .ok StoredMinus.tokens := by decide +kernel
  have hfolded : Program.ofSource "function f() return -5" = .ok StoredMinus.folded := by
    rw [ofSource_of_scan hscan]
    cbv
  have hplain : Program.ofSourcePlain "function f() return -5" = .ok StoredMinus.plain := by
    unfold Program.ofSourcePlain
    rw [hscan]
    cbv
  obtain ⟨-, hfolds, -⟩ := ofSource_folds "function f() return -5"
  rw [hfolded, hplain] at hfolds
  cases hfolds with
  | ok h => exact ⟨hfolded, hplain, h⟩

end BoxScript
