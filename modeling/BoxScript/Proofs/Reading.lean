import BoxScript.Proofs.Derivation

/-!
# What the parser takes

Whatever the parser reads, it has taken a derivation of it off the front of the tokens: nothing is
left out, taken twice or taken out of turn, and what is left is what stood behind. As in
`BoxScript.Proofs.Grammar` the parsers are gone through one by one, each with the others taken for
granted on fewer tokens.
-/

namespace BoxScript

variable {size : Nat} {minus : Node → Node}

/-- The tokens `ts` begin with the phrase, and `rest` is what stands behind it. -/
def Took (minus : Node → Node) (ph : Phrase) (ts rest : Tokens) : Prop :=
  ∃ w, ts.words = w ++ rest.words ∧ Derives minus AnyModifiers ph w rest.peek

/-- At the front of the tokens stands a phrase, and then what stands at the front of the rest. -/
theorem peek_of_words {ts rest : Tokens} {w : List Token} (h : ts.words = w ++ rest.words) :
    ts.peek = ahead w rest.peek := by
  rw [Tokens.peek_eq, Tokens.peek_eq, h]
  cases w <;> rfl

theorem peek_of_cons {ts : Tokens} {t : Token} {us : List Token} (h : ts.words = t :: us) :
    ts.peek = some t := by
  rw [Tokens.peek_eq, h]
  rfl

theorem Tokens.peek_append_tail (ts : Tokens) :
    ts.peek.toList ++ ts.words.tail = ts.words := by
  cases ts <;> rfl

/-- The reading goes on behind a phrase that has been taken. -/
theorem Yields.took {α β : Type} {ph : α → Phrase} {ts : Tokens} {x : Reading α ts}
    {f : Parsed α ts → Except SyntaxError β} {Q : β → Prop}
    (h : Yields (fun p => Took minus (ph p.value) ts p.rest) x)
    (hf : ∀ value rest (shorter : rest.length < ts.length) w, ts.words = w ++ rest.words →
      Derives minus AnyModifiers (ph value) w rest.peek → Yields Q (f ⟨value, rest, shorter⟩)) :
    Yields Q (x >>= f) := by
  refine h.next fun value rest shorter htook => ?_
  obtain ⟨w, hw, hderives⟩ := htook
  exact hf value rest shorter w hw hderives

/-! ## Single tokens -/

theorem taken_expect (t : Token) (ts : Tokens) :
    Yields (fun p => ts.words = t :: p.rest.words) (expect size t ts) := by
  unfold expect
  split
  · split
    · next u span rest ht => exact yields_ok (by rw [Tokens.words_cons, ht])
    · exact yields_error _
  · exact yields_error _

theorem taken_expectName (wanted : Wanted) (ts : Tokens) :
    Yields (fun p => ts.words = .ident p.value :: p.rest.words) (expectName size wanted ts) := by
  unfold expectName
  split
  · exact yields_ok rfl
  · exact yields_error _

/-- The token was there and was taken, or it was not there and nothing was taken. -/
theorem taken_accept {t : Token} {ts rest : Tokens} {found : Bool}
    {h : rest.length ≤ ts.length} (haccept : accept t ts = ⟨found, rest, h⟩) :
    (found = true ∧ ts.words = t :: rest.words) ∨ (found = false ∧ rest = ts) := by
  unfold accept at haccept
  split at haccept
  · split at haccept
    · next u span _ ht =>
      cases haccept
      exact .inl ⟨rfl, by rw [Tokens.words_cons, ht]⟩
    · cases haccept
      exact .inr ⟨rfl, rfl⟩
  · cases haccept
    exact .inr ⟨rfl, rfl⟩

theorem nameWords_cons (name : String) {names : List String} (h : names ≠ []) :
    nameWords (name :: names) = .ident name :: .sign .comma :: nameWords names := by
  cases names with
  | nil => exact absurd rfl h
  | cons => rfl

theorem taken_paramNames (ts : Tokens) :
    Yields (fun p => ts.words = nameWords p.value ++ p.rest.words ∧ p.value ≠ [])
      (paramNames size ts) := by
  induction hn : ts.length using Nat.strongRecOn generalizing ts with
  | ind n ih =>
    subst hn
    rw [paramNames]
    refine (taken_expectName .parameterName ts).next fun name rest h hname => ?_
    dsimp only
    rcases haccept : accept (.sign .comma) rest with ⟨goesOn, rest', h₁⟩
    dsimp only
    rcases taken_accept haccept with ⟨rfl, hcomma⟩ | ⟨rfl, rfl⟩
    · rw [if_pos rfl]
      refine (ih _ (by omega) rest' rfl).next fun names rest'' h₂ hothers => ?_
      obtain ⟨hnames, hsome⟩ := hothers
      refine yields_pure ⟨?_, List.cons_ne_nil _ _⟩
      rw [hname, hcomma, hnames, nameWords_cons name hsome]
      rfl
    · rw [if_neg Bool.false_ne_true]
      refine (taken_expect (.sign .rParen) rest').next fun _ rest'' h₂ hclose => ?_
      refine yields_pure ⟨?_, List.cons_ne_nil _ _⟩
      rw [hname, hclose]
      rfl

theorem taken_paramList (ts : Tokens) :
    Yields (fun p => ts.words = paramWords p.value ++ p.rest.words) (paramList size ts) := by
  rw [paramList]
  refine (taken_expect (.sign .lParen) ts).next fun _ rest h hopen => ?_
  dsimp only
  rcases haccept : accept (.sign .rParen) rest with ⟨closed, rest', h₁⟩
  dsimp only
  rcases taken_accept haccept with ⟨rfl, hclose⟩ | ⟨rfl, rfl⟩
  · rw [if_pos rfl]
    refine yields_pure ?_
    rw [hopen, hclose]
    rfl
  · rw [if_neg Bool.false_ne_true]
    refine (taken_paramNames rest').next fun names rest'' h₂ hnames => ?_
    refine yields_pure ?_
    rw [hopen, hnames.1]
    rfl

/-- The words before a box, and which of them are there. -/
theorem taken_modifiers (isConst isAbstract : Bool) (ts : Tokens) :
    ∃ w, ts.words = w ++ (modifiers isConst isAbstract ts).rest.words ∧ AnyModifiers w ∧
      (modifiers isConst isAbstract ts).value
        = (isConst || .keyword .const ∈ w, isAbstract || .keyword .abstract ∈ w) := by
  fun_induction modifiers isConst isAbstract ts with
  | case1 isConst isAbstract span rest flags left h hmore ih =>
    rw [hmore] at ih
    obtain ⟨w, hw, hall, hflags⟩ := ih
    refine ⟨.keyword .const :: w, by rw [Tokens.words_cons, hw]; rfl,
      List.forall_mem_cons.2 ⟨.inl rfl, hall⟩, hflags.trans ?_⟩
    simp
  | case2 isConst isAbstract span rest flags left h hmore ih =>
    rw [hmore] at ih
    obtain ⟨w, hw, hall, hflags⟩ := ih
    refine ⟨.keyword .abstract :: w, by rw [Tokens.words_cons, hw]; rfl,
      List.forall_mem_cons.2 ⟨.inr rfl, hall⟩, hflags.trans ?_⟩
    simp
  | case3 isConst isAbstract ts => exact ⟨[], rfl, List.forall_mem_nil _, by simp⟩

/-- The word for the access has been taken, if there was one. -/
theorem taken_memberAccess (ts : Tokens) :
    ∃ w, ts.words = w ++ (memberAccess ts).rest.words ∧
      AccessWord (memberAccess ts).value w := by
  unfold memberAccess
  split
  · exact ⟨_, rfl, .guarded⟩
  · exact ⟨_, rfl, .exposed⟩
  · exact ⟨[], rfl, .unsaid⟩

theorem memberField_cases (dot : Span) (node : Node) (name : String) :
    Yields (fun member => ∃ holder, node = .var holder ∧ member = .field holder name)
      (memberField dot node name) := by
  unfold memberField
  split
  · next holder => exact yields_ok ⟨holder, rfl, rfl⟩
  · exact yields_error _

theorem memberCall_called (dot : Span) (node : Node) (call : Invocation) :
    Yields (fun member => node.called? call = some member) (memberCall dot node call) := by
  unfold memberCall
  split
  · exact yields_ok rfl
  · exact yields_ok rfl
  · exact yields_ok rfl
  · exact yields_error _

/-! ## Expressions -/

/-- The parsers of expressions take derivations off fewer than `n` tokens. -/
structure ExprsTaken (size : Nat) (minus : Node → Node) (n : Nat) : Prop where
  expr : ∀ {ts}, ts.length < n →
    Yields (fun p => Took minus (.expr p.value) ts p.rest) (expr size minus ts)
  tier : ∀ (t : Tier) {ts}, ts.length < n →
    Yields (fun p => Took minus (.tier t p.value) ts p.rest) (tier size minus t ts)
  /-- The operators go on behind the operands that have been taken from `before`. -/
  operators : ∀ {t : Tier} {left before ts}, Took minus (.operands t left) before ts →
    ts.length < n → Yields (fun p => Took minus (.tier t p.value) before p.rest)
      (operators size minus t left ts)
  unary : ∀ {ts}, ts.length < n →
    Yields (fun p => Took minus (.tier .unary p.value) ts p.rest) (unary size minus ts)
  applied : ∀ {node before ts}, Took minus (.applied node) before ts → ts.length < n →
    Yields (fun p => Took minus (.tier .unary p.value) before p.rest) (applied size minus node ts)
  items : ∀ (close : Sign) {ts}, ts.length < n →
    Yields (fun p => Took minus (.items close p.value) ts p.rest) (items size minus close ts)
  moreItems : ∀ (close : Sign) {ts}, ts.length < n →
    Yields (fun p => Took minus (.moreItems close p.value) ts p.rest)
      (moreItems size minus close ts)

section Step

variable {n : Nat} {ts before : Tokens}

/-- Operators of a tier have been taken up to where they stop. -/
theorem taken_operators (B : ExprsTaken size minus n) (hn : ts.length ≤ n) {t : Tier}
    {left : Node} (hleft : Took minus (.operands t left) before ts) :
    Yields (fun p => Took minus (.tier t p.value) before p.rest)
      (operators size minus t left ts) := by
  obtain ⟨w, hw, hleft⟩ := hleft
  cases ts with
  | nil =>
    rw [operators]
    exact yields_ok ⟨w, hw, .tier hleft fun u hu => absurd hu (Option.not_mem_none u)⟩
  | cons front rest =>
    obtain ⟨token, span⟩ := front
    rw [List.length_cons] at hn
    rw [operators]
    cases hop : t.op? token with
    | none =>
      refine yields_ok ⟨w, hw, .tier hleft ?_⟩
      rintro _ ⟨⟩
      exact hop
    | some op =>
      refine (B.tier t.tighter (by omega)).took fun right rest' h₁ w' hw' hright => ?_
      have hboth : Took minus (.operands t (.binary op left right)) before rest' := by
        refine ⟨w ++ token :: w', ?_, .operator hleft hop hright⟩
        rw [hw, Tokens.words_cons, hw', List.append_assoc]
        rfl
      exact (B.operators hboth (by omega)).bind fun _ h => yields_pure h

theorem taken_optionalArgs (B : ExprsTaken size minus n) (ts : Tokens) (hn : ts.length ≤ n) :
    Yields (fun p => Took minus (.optionalArgs p.value) ts p.rest)
      (optionalArgs size minus ts) := by
  unfold optionalArgs
  split
  · next span rest =>
    rw [List.length_cons] at hn
    refine (B.items .rParen (by omega)).took fun _ _ _ w hw hargs => yields_pure ?_
    exact ⟨.sign .lParen :: w, by rw [Tokens.words_cons, hw]; rfl, .args hargs⟩
  · next hother =>
    refine yields_ok ⟨[], rfl, .noArgs fun hopen => ?_⟩
    cases ts with
    | nil => cases hopen
    | cons front rest =>
      obtain ⟨token, span⟩ := front
      cases hopen
      exact hother span rest rfl

theorem Token.eq_of_applies {t : Token} (h : t.applies = true) :
    t = .sign .lBracket ∨ t = .sign .colon ∨ t = .sign .dot := by
  unfold applies at h
  split at h
  · exact .inl rfl
  · exact .inr (.inl rfl)
  · exact .inr (.inr rfl)
  · cases h

/-- Whatever can be applied has been taken up to where it stops. -/
theorem taken_applied (B : ExprsTaken size minus n) (hn : ts.length ≤ n) {node : Node}
    (hnode : Took minus (.applied node) before ts) :
    Yields (fun p => Took minus (.tier .unary p.value) before p.rest)
      (applied size minus node ts) := by
  obtain ⟨w, hw, hnode⟩ := hnode
  unfold applied
  split
  · -- an index
    next span rest =>
    rw [List.length_cons] at hn
    refine (B.expr (by omega)).took fun position rest h₁ w' hw' hposition => ?_
    refine (taken_expect (.sign .rBracket) rest).next fun _ rest' h₂ hclose => ?_
    have hpeek : rest.peek = some (.sign .rBracket) := peek_of_cons hclose
    rw [hpeek] at hposition
    have htaken : Took minus (.applied (.index node position)) before rest' := by
      refine ⟨_, ?_, .index hnode hposition⟩
      rw [hw, Tokens.words_cons, hw', hclose]
      simp
    exact (B.applied htaken (by omega)).bind fun _ h => yields_pure h
  · -- an extension
    next span rest =>
    rw [List.length_cons] at hn
    refine (taken_expectName .extensionName rest).next fun name rest h₁ hname => ?_
    have hargs := taken_optionalArgs B rest (by omega)
    refine hargs.bind ?_
    rintro ⟨args, rest', h₂⟩ ⟨w', hw', hargs⟩
    have htaken : Took minus (.applied (.extension node name (args.getD []))) before rest' := by
      refine ⟨_, ?_, .extension hnode hargs⟩
      rw [hw, Tokens.words_cons, hname, hw']
      simp
    exact (B.applied htaken (by omega)).bind fun _ h => yields_pure h
  · next dot rest =>
    -- a field or a method
    rw [List.length_cons] at hn
    refine (taken_expectName .memberName rest).next fun name rest h₁ hname => ?_
    have hargs := taken_optionalArgs B rest (by omega)
    refine hargs.bind ?_
    rintro ⟨args, rest', h₂⟩ ⟨w', hw', hargs⟩
    have hfurther : ∀ member, Took minus (.applied member) before rest' →
        Yields (fun p => Took minus (.tier .unary p.value) before p.rest)
          (applied size minus member rest') :=
      fun member hmember => B.applied hmember (by omega)
    cases hargs with
    | noArgs hends =>
      refine (memberField_cases dot node name).bind ?_
      rintro _ ⟨holder, rfl, rfl⟩
      refine (hfurther _ ⟨_, ?_, .field hnode hends⟩).bind fun _ h => yields_pure h
      rw [hw, Tokens.words_cons, hname, hw']
      simp
    | args hargs =>
      refine (memberCall_called dot node ⟨name, _⟩).bind fun member hcall => ?_
      refine (hfurther member ⟨_, ?_, .method hnode hargs hcall⟩).bind fun _ h => yields_pure h
      rw [hw, Tokens.words_cons, hname, hw']
      simp
  · next hbracket hcolon hdot =>
    refine yields_ok ⟨w, hw, .unary hnode fun u hu => ?_⟩
    cases ts with
    | nil => cases hu
    | cons front rest =>
      obtain ⟨token, span⟩ := front
      cases hu
      refine Bool.eq_false_iff.2 fun happlies => ?_
      rcases Token.eq_of_applies happlies with rfl | rfl | rfl
      · exact hbracket span rest rfl
      · exact hcolon span rest rfl
      · exact hdot span rest rfl

theorem taken_inParens (B : ExprsTaken size minus n) (hn : ts.length ≤ n) :
    Yields (fun p => ∃ w, ts.words = .sign .lParen :: (w ++ [.sign .rParen]) ++ p.rest.words ∧
      Derives minus AnyModifiers (.expr p.value) w (some (.sign .rParen)))
      (inParens size minus ts) := by
  rw [inParens]
  refine (taken_expect (.sign .lParen) ts).next fun _ rest h₁ hopen => ?_
  refine (B.expr (by omega)).took fun node rest' h₂ w hw hnode => ?_
  refine (taken_expect (.sign .rParen) rest').next fun _ rest'' h₃ hclose => yields_pure ?_
  have hpeek : rest'.peek = some (.sign .rParen) := peek_of_cons hclose
  rw [hpeek] at hnode
  refine ⟨w, ?_, hnode⟩
  rw [hopen, hw, hclose]
  simp

/-- A primary has been taken. -/
theorem taken_primary (B : ExprsTaken size minus n) (hn : ts.length ≤ n) :
    Yields (fun p => Took minus (.primary p.value) ts p.rest) (primary size minus ts) := by
  -- the three words for a look at a file
  have hreader : ∀ {k : Keyword} {f : Node → Node} {rest rest' : Tokens} {path : Node} {span},
      k.reader? = some f →
      (∃ w, rest.words = .sign .lParen :: (w ++ [.sign .rParen]) ++ rest'.words ∧
        Derives minus AnyModifiers (.expr path) w (some (.sign .rParen))) →
      Took minus (.primary (f path)) ((.keyword k, span) :: rest) rest' := by
    rintro k f rest rest' path span hk ⟨w, hw, hpath⟩
    exact ⟨_, by rw [Tokens.words_cons, hw]; rfl, .reader hk hpath rfl⟩
  unfold primary
  split
  · exact yields_ok ⟨_, rfl, .int _⟩
  · exact yields_ok ⟨_, rfl, .str _⟩
  · next name span rest =>
    rw [List.length_cons] at hn
    have hargs := taken_optionalArgs B rest (by omega)
    refine hargs.bind ?_
    rintro ⟨args, rest', h₁⟩ ⟨w, hw, hargs⟩
    cases hargs with
    | noArgs hends => exact yields_pure ⟨_, by rw [Tokens.words_cons, hw]; rfl, .var name hends⟩
    | args hargs => exact yields_pure ⟨_, by rw [Tokens.words_cons, hw]; rfl, .call name hargs⟩
  · next span rest =>
    rw [List.length_cons] at hn
    refine (B.expr (by omega)).took fun node rest h₁ w hw hnode => ?_
    refine (taken_expect (.sign .rParen) rest).next fun _ rest' h₂ hclose => yields_pure ?_
    have hpeek : rest.peek = some (.sign .rParen) := peek_of_cons hclose
    rw [hpeek] at hnode
    refine ⟨_, ?_, .parens hnode⟩
    rw [Tokens.words_cons, hw, hclose]
    simp
  · rw [List.length_cons] at hn
    refine (B.items .rBracket (by omega)).took fun _ _ _ w hw h => yields_pure ?_
    exact ⟨_, by rw [Tokens.words_cons, hw]; rfl, .array h⟩
  · next span rest =>
    refine (taken_expectName .boxName rest).bind fun _ hname => yields_pure ?_
    exact ⟨_, by rw [Tokens.words_cons, hname]; rfl, .create _⟩
  · exact yields_ok ⟨_, rfl, .input⟩
  · rw [List.length_cons] at hn
    exact (taken_inParens B (by omega)).bind fun _ h => yields_pure (hreader rfl h)
  · rw [List.length_cons] at hn
    exact (taken_inParens B (by omega)).bind fun _ h => yields_pure (hreader rfl h)
  · rw [List.length_cons] at hn
    exact (taken_inParens B (by omega)).bind fun _ h => yields_pure (hreader rfl h)
  · exact yields_error _

theorem taken_unary (B : ExprsTaken size minus n) (hn : ts.length ≤ n) :
    Yields (fun p => Took minus (.tier .unary p.value) ts p.rest) (unary size minus ts) := by
  unfold unary
  split
  · rw [List.length_cons] at hn
    refine (B.unary (by omega)).took fun _ _ _ w hw h => yields_pure ?_
    exact ⟨_, by rw [Tokens.words_cons, hw]; rfl, .minus h rfl⟩
  · rw [postfixed]
    refine (taken_primary B hn).took fun node rest h₁ w hw hnode => ?_
    have htaken : Took minus (.applied node) ts rest := ⟨w, hw, .applied hnode⟩
    exact (B.applied htaken (by omega)).bind fun _ h => yields_pure h

theorem taken_tier (B : ExprsTaken size minus n) (hn : ts.length ≤ n) (t : Tier) :
    Yields (fun p => Took minus (.tier t p.value) ts p.rest) (tier size minus t ts) := by
  -- from the tightest tier to the loosest
  have loosen : ∀ {t : Tier}, t ≠ .unary →
      Yields (fun p => Took minus (.tier t.tighter p.value) ts p.rest)
        (tier size minus t.tighter ts) →
      Yields (fun p => Took minus (.tier t p.value) ts p.rest) (tier size minus t ts) := by
    intro t ht htighter
    rw [tier, dif_neg ht]
    refine htighter.took fun left rest h₁ w hw hleft => ?_
    have htaken : Took minus (.operands t left) ts rest := ⟨w, hw, .operand ht hleft⟩
    exact (B.operators htaken (by omega)).bind fun _ h => yields_pure h
  have hunary : Yields (fun p => Took minus (.tier .unary p.value) ts p.rest)
      (tier size minus .unary ts) := by
    rw [tier, dif_pos rfl]
    exact taken_unary B hn
  have hproduct := loosen (t := .product) (by decide) hunary
  have hsum := loosen (t := .sum) (by decide) hproduct
  have hcomparison := loosen (t := .comparison) (by decide) hsum
  cases t with
  | unary => exact hunary
  | product => exact hproduct
  | sum => exact hsum
  | comparison => exact hcomparison
  | logic => exact loosen (t := .logic) (by decide) hcomparison

theorem taken_moreItems (B : ExprsTaken size minus n) (hn : ts.length ≤ n) (close : Sign) :
    Yields (fun p => Took minus (.moreItems close p.value) ts p.rest)
      (moreItems size minus close ts) := by
  rw [moreItems, expr]
  refine (taken_tier B hn .logic).took fun item rest h₁ w hw hitem => ?_
  dsimp only
  rcases haccept : accept (.sign .comma) rest with ⟨goesOn, rest', h₂⟩
  rcases taken_accept haccept with ⟨rfl, hcomma⟩ | ⟨rfl, rfl⟩
  · have hmore := B.moreItems close (show rest'.length < n by omega)
    refine hmore.took fun others rest'' h₃ w' hw' hothers => yields_pure ?_
    have hpeek : rest.peek = some (.sign .comma) := peek_of_cons hcomma
    rw [hpeek] at hitem
    refine ⟨_, ?_, .moreItems hitem hothers⟩
    rw [hw, hcomma, hw']
    simp
  · refine (taken_expect (.sign close) rest').bind fun p hclose => yields_pure ?_
    have hpeek : rest'.peek = some (.sign close) := peek_of_cons hclose
    rw [hpeek] at hitem
    refine ⟨_, ?_, .lastItem hitem⟩
    rw [hw, hclose]
    simp

theorem taken_items (B : ExprsTaken size minus n) (hn : ts.length ≤ n) (close : Sign) :
    Yields (fun p => Took minus (.items close p.value) ts p.rest) (items size minus close ts) := by
  unfold items
  split
  · refine (taken_expect (.sign close) ts).bind fun p hclose => yields_pure ?_
    exact ⟨[.sign close], hclose, .noItems⟩
  · intro p hp
    obtain ⟨w, hw, h⟩ := taken_moreItems B hn close p hp
    exact ⟨w, hw, .items h⟩

end Step

/-- Expressions are derived as they are read, by the number of the tokens that are left. -/
theorem exprsTaken (n : Nat) : ExprsTaken size minus n := by
  -- the parsers call each other, but what they call in the end has fewer tokens to read
  induction n with
  | zero => constructor <;> · intros; omega
  | succ n ih =>
    exact
      { expr := fun hn => by
          rw [expr]
          exact taken_tier ih (Nat.le_of_lt_succ hn) .logic
        tier := fun t _ hn => taken_tier ih (Nat.le_of_lt_succ hn) t
        operators := fun hleft hn => taken_operators ih (Nat.le_of_lt_succ hn) hleft
        unary := fun hn => taken_unary ih (Nat.le_of_lt_succ hn)
        applied := fun hnode hn => taken_applied ih (Nat.le_of_lt_succ hn) hnode
        items := fun close _ hn => taken_items ih (Nat.le_of_lt_succ hn) close
        moreItems := fun close _ hn => taken_moreItems ih (Nat.le_of_lt_succ hn) close }

/-- What is read as an expression has been taken off the front. -/
theorem taken_expr (ts : Tokens) :
    Yields (fun p => Took minus (.expr p.value) ts p.rest) (expr size minus ts) :=
  (exprsTaken (ts.length + 1)).expr (Nat.lt_succ_self _)

/-! ## Statements -/

/-- Tokens that begin an assignment still do with more tokens behind them. -/
theorem startsAssignment_append {w : List Token} (h : startsAssignment w = true)
    (w' : List Token) : startsAssignment (w ++ w') = true := by
  unfold startsAssignment at h
  split at h
  · rfl
  · rfl
  · cases h

theorem startsAssignment_words {ts : Tokens} (h : startsAssignment ts.words = true) :
    (∃ name s s' rest, ts = (.ident name, s) :: (.sign .eq, s') :: rest) ∨
      ∃ holder s s₁ name s₂ s₃ rest, ts = (.ident holder, s) :: (.sign .dot, s₁) ::
        (.ident name, s₂) :: (.sign .eq, s₃) :: rest := by
  unfold startsAssignment at h
  split at h
  · next hwords =>
    obtain ⟨s, rest, rfl, hrest⟩ := Tokens.of_words_cons hwords
    obtain ⟨s', rest', rfl, -⟩ := Tokens.of_words_cons hrest
    exact .inl ⟨_, s, s', rest', rfl⟩
  · next hwords =>
    obtain ⟨s, rest, rfl, hrest⟩ := Tokens.of_words_cons hwords
    obtain ⟨s₁, rest₁, rfl, hrest₁⟩ := Tokens.of_words_cons hrest
    obtain ⟨s₂, rest₂, rfl, hrest₂⟩ := Tokens.of_words_cons hrest₁
    obtain ⟨s₃, rest₃, rfl, -⟩ := Tokens.of_words_cons hrest₂
    exact .inr ⟨_, s, s₁, _, s₂, s₃, rest₃, rfl⟩
  · cases h

/-- The parsers of statements take derivations off fewer than `n` tokens. -/
structure StatementsTaken (size : Nat) (minus : Node → Node) (n : Nat) : Prop where
  statement : ∀ {ts}, ts.length < n →
    Yields (fun p => Took minus (.statement p.value) ts p.rest) (statement size minus ts)
  /-- A block ends before the word that ends it. -/
  block : ∀ (elseToo : Bool) {ts}, ts.length < n →
    Yields (fun p => Took minus (.block p.value) ts p.rest ∧
      ∃ u, p.rest.peek = some u ∧ endsBlock elseToo u = true) (block size minus elseToo ts)
  routine : ∀ {ts}, ts.length < n →
    Yields (fun p => Took minus (.routine p.value) ts p.rest) (routine size minus ts)
  routineBody : ∀ {ts}, ts.length < n →
    Yields (fun p => Took minus (.body p.value) ts p.rest) (routineBody size minus ts)
  members : ∀ {ts}, ts.length < n →
    Yields (fun p => Took minus (.members p.value) ts p.rest) (members size minus ts)

section Step

variable {n : Nat} {ts : Tokens}

theorem taken_routine (B : StatementsTaken size minus n) (hn : ts.length ≤ n) :
    Yields (fun p => Took minus (.routine p.value) ts p.rest) (routine size minus ts) := by
  rw [routine]
  refine (taken_expectName .functionName ts).next fun name rest h₁ hname => ?_
  refine (taken_paramList rest).next fun params rest' h₂ hparams => ?_
  refine (B.routineBody (by omega)).took fun _ _ _ w hw hbody => yields_pure ?_
  refine ⟨_, ?_, .routine hbody⟩
  rw [hname, hparams, hw]
  simp

/-- Members have been taken up to the end of their box. -/
theorem taken_members (B : StatementsTaken size minus n) (hn : ts.length ≤ n) :
    Yields (fun p => Took minus (.members p.value) ts p.rest) (members size minus ts) := by
  unfold members
  split
  · refine (taken_expect (.keyword .endBlock) ts).bind fun p hend => yields_pure ?_
    exact ⟨[.keyword .endBlock], hend, .noMembers⟩
  · dsimp only [pure_bind]
    obtain ⟨w, hw, haccess⟩ := taken_memberAccess ts
    rcases hread : memberAccess ts with ⟨access, rest, h₁⟩
    rw [hread] at hw haccess
    dsimp only at hw haccess ⊢
    rcases hfirst : accept (.keyword .abstract) rest with ⟨isAbstract, rest', h₂⟩
    dsimp only
    rcases hsecond : accept (.keyword .function) rest' with ⟨isFunction, rest'', h₃⟩
    dsimp only
    -- four kinds of members by two keywords, one of which there is not
    rcases taken_accept hsecond with ⟨rfl, hfunction⟩ | ⟨rfl, rfl⟩ <;>
    rcases taken_accept hfirst with ⟨rfl, habstract⟩ | ⟨rfl, rfl⟩
    · -- an abstract function has no body
      rw [if_pos rfl]
      refine (taken_expectName .functionName rest'').next fun name rest₄ h₄ hname => ?_
      refine (taken_paramList rest₄).next fun params rest₅ h₅ hparams => ?_
      have hmembers := B.members (show rest₅.length < n by omega)
      refine hmembers.took fun _ _ _ w' hw' hothers => yields_pure ?_
      refine ⟨_, ?_, .memberAbstract haccess hothers⟩
      rw [hw, habstract, hfunction, hname, hparams, hw']
      simp
    · -- a function with a body
      rw [Bool.and_false, if_neg Bool.false_ne_true, if_pos rfl]
      refine (taken_routine B (by omega)).took fun r rest₄ h₄ w' hw' hroutine => ?_
      have hmembers := B.members (show rest₄.length < n by omega)
      refine hmembers.took fun _ _ _ w'' hw'' hothers => yields_pure ?_
      rw [peek_of_words hw''] at hroutine
      refine ⟨_, ?_, .memberFunction haccess hroutine hothers⟩
      rw [hw, hfunction, hw', hw'']
      simp
    · -- a field is never abstract
      rw [Bool.false_and, if_neg Bool.false_ne_true, if_neg Bool.false_ne_true, if_pos rfl]
      exact yields_error _
    · rw [Bool.false_and, if_neg Bool.false_ne_true, if_neg Bool.false_ne_true,
        if_neg Bool.false_ne_true]
      refine (taken_expectName .fieldName rest'').next fun name rest₄ h₄ hname => ?_
      refine (taken_expect (.sign .eq) rest₄).next fun _ rest₅ h₅ heq => ?_
      refine (taken_expr rest₅).took fun init rest₆ h₆ w' hw' hinit => ?_
      have hmembers := B.members (show rest₆.length < n by omega)
      refine hmembers.took fun _ _ _ w'' hw'' hothers => yields_pure ?_
      rw [peek_of_words hw''] at hinit
      refine ⟨_, ?_, .memberField haccess hinit hothers⟩
      rw [hw, hname, heq, hw', hw'']
      simp

theorem taken_boxDeclaration (B : StatementsTaken size minus n) (hn : ts.length ≤ n) :
    Yields (fun p => Took minus (.statement p.value) ts p.rest) (boxDeclaration size minus ts) := by
  rw [boxDeclaration]
  obtain ⟨w, hw, hmods, hflags⟩ := taken_modifiers false false ts
  rcases hread : modifiers false false ts with ⟨⟨isConst, isAbstract⟩, rest, h₁⟩
  rw [hread] at hw hflags
  simp only [Bool.false_or, Prod.mk.injEq] at hw hflags
  obtain ⟨rfl, rfl⟩ := hflags
  dsimp only
  refine (taken_expect (.keyword .refbox) rest).next fun _ rest₂ h₂ hrefbox => ?_
  refine (taken_expectName .boxName rest₂).next fun name rest₃ h₃ hname => ?_
  dsimp only
  rcases haccept : accept (.sign .colon) rest₃ with ⟨based, rest₄, h₄⟩
  -- a box with a base and one without
  have hfound : ∀ {base : Option String} {rest₅ : Tokens}, rest₅.length < n →
      rest₃.words = baseWords base ++ rest₅.words →
      Yields (fun p => Took minus (.statement (.box ⟨name, base, .keyword .abstract ∈ w,
        .keyword .const ∈ w, p.value.fields, p.value.methods⟩)) ts p.rest)
        (members size minus rest₅) := by
    intro base rest₅ hlt hbase p hp
    obtain ⟨w', hw', hmembers⟩ := B.members hlt p hp
    refine ⟨_, ?_, .box hmods hmembers⟩
    rw [hw, hrefbox, hname, hbase, hw']
    simp
  rcases taken_accept haccept with ⟨rfl, hcolon⟩ | ⟨rfl, rfl⟩
  · refine (taken_expectName .baseName rest₄).next fun base rest₅ h₅ hbase => ?_
    have hwords : rest₃.words = baseWords (some base) ++ rest₅.words := by
      rw [hcolon, hbase]
      rfl
    exact (hfound (by omega) hwords).bind fun _ h => yields_pure h
  · have hwords : rest₄.words = baseWords none ++ rest₄.words := rfl
    exact (hfound (by omega) hwords).bind fun _ h => yields_pure h

/-- A statement has been taken. -/
theorem taken_statement (B : StatementsTaken size minus n) (hn : ts.length ≤ n) :
    Yields (fun p => Took minus (.statement p.value) ts p.rest) (statement size minus ts) := by
  -- the words for a statement with one expression
  have hcommand : ∀ (k : Keyword) {f : Node → Node} {rest rest' : Tokens} {value node : Node}
      {span : Span}, Took minus (.expr value) rest rest' → k.command? = some f →
      node = f value → Took minus (.statement node) ((.keyword k, span) :: rest) rest' := by
    rintro k f rest rest' value node span ⟨w, hw, hvalue⟩ hk hnode
    exact ⟨_, by rw [Tokens.words_cons, hw]; rfl, .command hk hvalue hnode⟩
  unfold statement
  split
  -- `function`, `return`, `print`
  · rw [List.length_cons] at hn
    refine (B.routine (by omega)).took fun _ _ _ w hw h => yields_pure ?_
    exact ⟨_, by rw [Tokens.words_cons, hw]; rfl, .function h⟩
  · exact yields_ok ⟨_, rfl, .giveBackNone⟩
  · exact (taken_expr _).bind fun _ h => yields_pure (hcommand .giveBack h rfl rfl)
  · exact (taken_expr _).bind fun _ h => yields_pure (hcommand .print h rfl rfl)
  · exact (taken_expr _).bind fun _ h => yields_pure (hcommand .printInline h rfl rfl)
  · -- `if`
    next span rest =>
    rw [List.length_cons] at hn
    refine (taken_expr rest).took fun condition rest₁ h₁ w hw hcondition => ?_
    refine (B.block true (by omega)).bind ?_
    rintro ⟨yes, rest₂, h₂⟩ ⟨⟨w', hw', hyes⟩, hends⟩
    rw [peek_of_words hw'] at hcondition
    dsimp only
    rcases hread : accept (.keyword .otherwise) rest₂ with ⟨hasElse, rest₃, h₃⟩
    dsimp only
    rcases taken_accept hread with ⟨rfl, helse⟩ | ⟨rfl, rfl⟩
    · rw [if_pos rfl]
      refine (B.block false (by omega)).bind ?_
      rintro ⟨no, rest₄, h₄⟩ ⟨⟨w'', hw'', hno⟩, -⟩
      refine (taken_expect (.keyword .endBlock) rest₄).bind fun p hend => yields_pure ?_
      rw [peek_of_cons helse] at hyes hcondition
      rw [peek_of_cons hend] at hno
      refine ⟨_, ?_, .ifElse hcondition hyes hno⟩
      rw [Tokens.words_cons, hw, hw', helse, hw'', hend]
      simp
    · rw [if_neg Bool.false_ne_true]
      refine (taken_expect (.keyword .endBlock) rest₃).bind fun p hend => yields_pure ?_
      rw [peek_of_cons hend] at hyes hcondition
      refine ⟨_, ?_, .ifThen hcondition hyes⟩
      rw [Tokens.words_cons, hw, hw', hend]
      simp
  · -- `while`
    next span rest =>
    rw [List.length_cons] at hn
    refine (taken_expr rest).took fun condition rest₁ h₁ w hw hcondition => ?_
    refine (B.block false (by omega)).bind ?_
    rintro ⟨body, rest₂, h₂⟩ ⟨⟨w', hw', hbody⟩, -⟩
    refine (taken_expect (.keyword .endBlock) rest₂).bind fun p hend => yields_pure ?_
    rw [peek_of_words hw', peek_of_cons hend] at hcondition
    rw [peek_of_cons hend] at hbody
    refine ⟨_, ?_, .whileDo hcondition hbody⟩
    rw [Tokens.words_cons, hw, hw', hend]
    simp
  · -- `for`: its clauses are statements
    next span rest =>
    rw [List.length_cons] at hn
    refine (B.statement (by omega)).took fun init rest₁ h₁ w₁ hw₁ hinit => ?_
    refine (taken_expect (.sign .semi) rest₁).next fun _ rest₂ h₂ hfirst => ?_
    refine (taken_expr rest₂).took fun condition rest₃ h₃ w₂ hw₂ hcondition => ?_
    refine (taken_expect (.sign .semi) rest₃).next fun _ rest₄ h₄ hsecond => ?_
    refine (B.statement (by omega)).took fun increment rest₅ h₅ w₃ hw₃ hincrement => ?_
    refine (B.block false (by omega)).bind ?_
    rintro ⟨body, rest₆, h₆⟩ ⟨⟨w₄, hw₄, hbody⟩, -⟩
    refine (taken_expect (.keyword .endBlock) rest₆).bind fun p hend => yields_pure ?_
    rw [peek_of_cons hfirst] at hinit
    rw [peek_of_cons hsecond] at hcondition
    rw [peek_of_words hw₄, peek_of_cons hend] at hincrement
    rw [peek_of_cons hend] at hbody
    refine ⟨_, ?_, .forDo hinit hcondition hincrement hbody⟩
    rw [Tokens.words_cons, hw₁, hfirst, hw₂, hsecond, hw₃, hw₄, hend]
    simp
  · exact (taken_expr _).bind fun _ h => yields_pure (hcommand .raise h rfl rfl)
  · exact (taken_expr _).bind fun _ h => yields_pure (hcommand .importScript h rfl rfl)
  · next span rest =>
    refine (taken_expect (.sign .lParen) rest).next fun _ rest₁ _ hopen => ?_
    refine (taken_expr rest₁).took fun kind rest₂ _ w₁ hw₁ hkind => ?_
    refine (taken_expect (.sign .comma) rest₂).next fun _ rest₃ _ hfirst => ?_
    refine (taken_expr rest₃).took fun box rest₄ _ w₂ hw₂ hbox => ?_
    refine (taken_expect (.sign .comma) rest₄).next fun _ rest₅ _ hsecond => ?_
    refine (taken_expr rest₅).took fun function rest₆ _ w₃ hw₃ hfunction => ?_
    refine (taken_expect (.sign .comma) rest₆).next fun _ rest₇ _ hthird => ?_
    refine (taken_expr rest₇).took fun arity rest₈ _ w₄ hw₄ harity => ?_
    refine (taken_expect (.sign .rParen) rest₈).bind fun p hclose => yields_pure ?_
    rw [peek_of_cons hfirst] at hkind
    rw [peek_of_cons hsecond] at hbox
    rw [peek_of_cons hthird] at hfunction
    rw [peek_of_cons hclose] at harity
    refine ⟨_, ?_, .extend hkind hbox hfunction harity⟩
    rw [Tokens.words_cons, hopen, hw₁, hfirst, hw₂, hsecond, hw₃, hthird, hw₄, hclose]
    simp
  -- a definition begins with one of three words
  · exact taken_boxDeclaration B hn
  · exact taken_boxDeclaration B hn
  · exact taken_boxDeclaration B hn
  · refine (taken_expr _).took fun _ _ _ w hw h => yields_pure ?_
    exact ⟨_, by rw [Tokens.words_cons, Tokens.words_cons, hw]; rfl, .assign h⟩
  · refine (taken_expr _).took fun _ _ _ w hw h => yields_pure ?_
    exact ⟨_, by simp only [Tokens.words_cons, hw]; rfl, .setField h⟩
  · exact yields_error _
  -- anything else is an expression
  · next hassign hfield hempty =>
    intro p hp
    obtain ⟨w, hw, h⟩ := taken_expr ts p hp
    refine ⟨w, hw, .expression h (Bool.eq_false_iff.2 fun hstarts => ?_)⟩
    have hmore : startsAssignment ts.words = true := by
      rw [hw, ← Tokens.peek_append_tail p.rest, ← List.append_assoc]
      exact startsAssignment_append hstarts _
    rcases startsAssignment_words hmore with
      ⟨name, s, s', rest, rfl⟩ | ⟨holder, s, s₁, name, s₂, s₃, rest, rfl⟩
    · exact hassign _ _ _ _ rfl
    · exact hfield _ _ _ _ _ _ _ rfl

theorem taken_block (B : StatementsTaken size minus n) (hn : ts.length ≤ n) (elseToo : Bool) :
    Yields (fun p => Took minus (.block p.value) ts p.rest ∧
      ∃ u, p.rest.peek = some u ∧ endsBlock elseToo u = true) (block size minus elseToo ts) := by
  unfold block
  split
  · exact yields_error _
  · next token span others =>
    split
    · next hends => exact yields_ok ⟨⟨[], rfl, .noStatements⟩, token, rfl, hends⟩
    · refine (taken_statement B hn).took fun first rest h₁ w hw hfirst => ?_
      rw [List.length_cons] at hn
      refine (B.block elseToo (by rw [List.length_cons] at h₁; omega)).bind ?_
      rintro ⟨further, rest', h₂⟩ ⟨⟨w', hw', hfurther⟩, hends⟩
      rw [peek_of_words hw'] at hfirst
      refine yields_pure ⟨⟨_, ?_, .statements hfirst hfurther⟩, hends⟩
      rw [hw, hw', List.append_assoc]

theorem taken_routineBody (B : StatementsTaken size minus n) (hn : ts.length ≤ n) :
    Yields (fun p => Took minus (.body p.value) ts p.rest) (routineBody size minus ts) := by
  unfold routineBody
  split
  · exact yields_error _
  · exact yields_ok ⟨[.keyword .endBlock], rfl, .bodyEnd⟩
  · refine (taken_statement B hn).took fun first rest h₁ w hw hfirst => ?_
    dsimp only
    split
    · exact yields_pure ⟨w, hw, .bodyReturn hfirst⟩
    · next hgoesOn =>
      refine (B.routineBody (by omega)).took fun further rest' h₂ w' hw' hfurther => ?_
      rw [peek_of_words hw'] at hfirst
      refine yields_pure ⟨_, ?_, .body hfirst hgoesOn hfurther⟩
      rw [hw, hw', List.append_assoc]

end Step

/-- Statements are derived as they are read, by the number of the tokens that are left. -/
theorem statementsTaken (n : Nat) : StatementsTaken size minus n := by
  induction n with
  | zero => constructor <;> · intros; omega
  | succ n ih =>
    exact
      { statement := fun hn => taken_statement ih (Nat.le_of_lt_succ hn)
        block := fun elseToo _ hn => taken_block ih (Nat.le_of_lt_succ hn) elseToo
        routine := fun hn => taken_routine ih (Nat.le_of_lt_succ hn)
        routineBody := fun hn => taken_routineBody ih (Nat.le_of_lt_succ hn)
        members := fun hn => taken_members ih (Nat.le_of_lt_succ hn) }

/-- **What is read as a program is a derivation of it**, from the first token to the last. -/
theorem derives_of_statements {ts : Tokens} {program : Program}
    (h : statements size minus ts = .ok program) :
    Derives minus AnyModifiers (.block program) ts.words none := by
  suffices hall : Yields (fun program => Derives minus AnyModifiers (.block program) ts.words none)
      (statements size minus ts) from hall program h
  clear h
  induction hn : ts.length using Nat.strongRecOn generalizing ts with
  | ind n ih =>
    subst hn
    unfold statements
    split
    · exact yields_ok .noStatements
    · next token span others =>
      have hfirst :
          Yields (fun p => Took minus (.statement p.value) ((token, span) :: others) p.rest)
            (statement size minus ((token, span) :: others)) :=
        (statementsTaken _).statement (Nat.lt_succ_self _)
      refine hfirst.took fun first rest h₁ w hw hfirst => ?_
      refine (ih _ h₁ rfl).bind fun further hfurther => yields_pure ?_
      have hpeek : rest.peek = ahead rest.words none := by
        rw [Tokens.peek_eq]
        exact Option.or_none.symm
      rw [hpeek] at hfirst
      rw [hw]
      exact .statements hfirst hfurther

end BoxScript
