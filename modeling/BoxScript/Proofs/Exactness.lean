import BoxScript.Proofs.Reading

/-!
# The parser reads what the grammar says

The other direction of `BoxScript.Proofs.Reading`: where the tokens begin with a phrase, the parser
reads that phrase and stops behind it. Here it is said what the parser does with a phrase of every
kind, and shown for the rules of the expressions, one lemma for each rule. What the rules do not
say, such as which tokens no expression begins with, is found out by running the parser on them.
-/

namespace BoxScript

variable {size : Nat} {minus : Node → Node} {α β : Type}

/-! ## Readings that succeed -/

/-- The reading gives something, and it is in `P`. -/
def Gives (x : Except SyntaxError α) (P : α → Prop) : Prop := ∃ a, x = .ok a ∧ P a

/-- What has been read, and what is left. -/
def Parsed.Is {ts : Tokens} (p : Parsed α ts) (value : α) (rest : Tokens) : Prop :=
  p.value = value ∧ p.rest = rest

@[inherit_doc Parsed.Is]
def Passed.Is {ts : Tokens} (p : Passed α ts) (value : α) (rest : Tokens) : Prop :=
  p.value = value ∧ p.rest = rest

/-- A result with a value and a rest differs from that only in the proof that tokens were taken. -/
theorem Passed.Is.eq {ts rest : Tokens} {value : α} {p : Passed α ts} (h : p.Is value rest) :
    ∃ within, p = ⟨value, rest, within⟩ := by
  obtain ⟨_, _, within⟩ := p
  obtain ⟨rfl, rfl⟩ := h
  exact ⟨within, rfl⟩

theorem gives_pure {a : α} {P : α → Prop} (h : P a) : Gives (pure a) P := ⟨a, rfl, h⟩

/-- A reading that gives a value hands it to what comes next. -/
theorem Gives.next {ts rest : Tokens} {value : α} {x : Reading α ts}
    {f : Parsed α ts → Except SyntaxError β} {Q : β → Prop} (h : Gives x (·.Is value rest))
    (hf : ∀ shorter, Gives (f ⟨value, rest, shorter⟩) Q) : Gives (x >>= f) Q := by
  obtain ⟨⟨_, _, shorter⟩, rfl, rfl, rfl⟩ := h
  exact hf shorter

theorem Gives.pass {ts rest : Tokens} {value : α} {x : Passing α ts}
    {f : Passed α ts → Except SyntaxError β} {Q : β → Prop} (h : Gives x (·.Is value rest))
    (hf : ∀ within, Gives (f ⟨value, rest, within⟩) Q) : Gives (x >>= f) Q := by
  obtain ⟨⟨_, _, within⟩, rfl, rfl, rfl⟩ := h
  exact hf within

/-! ## Rows of tokens -/

/-- In `ts` the tokens `w` stand before `rest`. -/
def Stands (w : List Token) (ts rest : Tokens) : Prop := ∃ ws, ws.words = w ∧ ts = ws ++ rest

theorem Stands.nil {ts rest : Tokens} (h : Stands [] ts rest) : ts = rest := by
  obtain ⟨ws, hw, rfl⟩ := h
  rw [List.map_eq_nil_iff.1 hw]
  rfl

theorem Stands.cons {t : Token} {w : List Token} {ts rest : Tokens} (h : Stands (t :: w) ts rest) :
    ∃ s us, ts = (t, s) :: us ∧ Stands w us rest := by
  obtain ⟨ws, hw, rfl⟩ := h
  obtain ⟨s, ws', rfl, hw'⟩ := Tokens.of_words_cons hw
  exact ⟨s, ws' ++ rest, rfl, ws', hw', rfl⟩

/-- Words that stand in a row stand one part after the other. -/
theorem Stands.append {w w' : List Token} {ts rest : Tokens} (h : Stands (w ++ w') ts rest) :
    ∃ us, Stands w ts us ∧ Stands w' us rest := by
  obtain ⟨ws, hw, rfl⟩ := h
  obtain ⟨ws₁, ws₂, rfl, hw₁, hw₂⟩ := List.map_eq_append_iff.1 hw
  exact ⟨ws₂ ++ rest, ⟨ws₁, hw₁, List.append_assoc ..⟩, ⟨ws₂, hw₂, rfl⟩⟩

theorem Stands.one {t : Token} {ts rest : Tokens} (h : Stands [t] ts rest) :
    ∃ s, ts = (t, s) :: rest := by
  obtain ⟨s, us, rfl, hnone⟩ := h.cons
  exact ⟨s, by rw [hnone.nil]⟩

/-- What is seen first is the first word, or what stands behind if there is none. -/
theorem Stands.peek {w : List Token} {ts rest : Tokens} (h : Stands w ts rest) :
    ts.peek = ahead w rest.peek := by
  obtain ⟨ws, rfl, rfl⟩ := h
  cases ws <;> rfl

theorem Tokens.of_peek {ts : Tokens} {t : Token} (h : ts.peek = some t) :
    ∃ s, ∃ rest : Tokens, ts = (t, s) :: rest := by
  cases ts with
  | nil => cases h
  | cons front rest =>
    cases h
    exact ⟨front.2, rest, rfl⟩

/-! ## Single tokens -/

theorem gives_expect (t : Token) (s : Span) (rest : Tokens) :
    Gives (expect size t ((t, s) :: rest)) (·.Is () rest) := by
  refine ⟨⟨(), rest, Nat.lt_succ_self _⟩, ?_, rfl, rfl⟩
  rw [expect, if_pos rfl]

theorem gives_expectName (wanted : Wanted) (name : String) (s : Span) (rest : Tokens) :
    Gives (expectName size wanted ((.ident name, s) :: rest)) (·.Is name rest) :=
  ⟨_, rfl, rfl, rfl⟩

theorem accept_here (t : Token) (s : Span) (rest : Tokens) :
    accept t ((t, s) :: rest) = ⟨true, rest, Nat.le_succ _⟩ := by
  rw [accept, if_pos rfl]

/-- A token that is not there is not accepted, and nothing is taken. -/
theorem accept_missing {t : Token} {ts : Tokens} (h : ts.peek ≠ some t) :
    accept t ts = ⟨false, ts, Nat.le_refl _⟩ := by
  cases ts with
  | nil => rfl
  | cons front rest =>
    have hother : front.1 ≠ t := fun heq => h (by rw [← heq]; rfl)
    rw [accept, if_neg hother]

theorem gives_paramNames {params : List String} (hsome : params ≠ []) {ts rest : Tokens}
    (h : Stands (nameWords params) ts rest) : Gives (paramNames size ts) (·.Is params rest) := by
  induction params generalizing ts with
  | nil => exact absurd rfl hsome
  | cons name names ih =>
    cases names with
    | nil =>
      obtain ⟨s, us, rfl, h₁⟩ := h.cons
      obtain ⟨s', rfl⟩ := h₁.one
      rw [paramNames]
      refine (gives_expectName .parameterName name s _).next fun _ => ?_
      dsimp only
      rw [accept_missing (by rintro ⟨⟩)]
      exact (gives_expect (.sign .rParen) s' rest).next fun _ => gives_pure ⟨rfl, rfl⟩
    | cons name' names =>
      rw [nameWords_cons name (List.cons_ne_nil name' names)] at h
      obtain ⟨s, us, rfl, h₁⟩ := h.cons
      obtain ⟨s', vs, rfl, h₂⟩ := h₁.cons
      rw [paramNames]
      refine (gives_expectName .parameterName name s _).next fun _ => ?_
      dsimp only
      rw [accept_here]
      exact (ih (List.cons_ne_nil name' names) h₂).next fun _ => gives_pure ⟨rfl, rfl⟩

/-- The parameters of a routine are read with their parentheses, if there are any. -/
theorem gives_paramList {params : List String} {ts rest : Tokens}
    (h : Stands (paramWords params) ts rest) : Gives (paramList size ts) (·.Is params rest) := by
  obtain ⟨s, us, rfl, h₁⟩ := h.cons
  rw [paramList]
  refine (gives_expect (.sign .lParen) s us).next fun _ => ?_
  dsimp only
  cases params with
  | nil =>
    obtain ⟨s', rfl⟩ := h₁.one
    rw [accept_here]
    exact gives_pure ⟨rfl, rfl⟩
  | cons name names =>
    have hpeek : Tokens.peek us ≠ some (.sign .rParen) := by
      rw [h₁.peek]
      cases names <;> simp [nameWords, ahead]
    rw [accept_missing hpeek]
    exact (gives_paramNames (List.cons_ne_nil name names) h₁).next fun _ => gives_pure ⟨rfl, rfl⟩

/-- Modifiers are taken as long as there are some, and each of them sets its own flag. -/
theorem modifiers_is {w : List Token} (hmods : AnyModifiers w) {ts rest : Tokens}
    (h : Stands w ts rest) (hrest : rest.peek = some (.keyword .refbox))
    (isConst isAbstract : Bool) : (modifiers isConst isAbstract ts).Is
      (isConst || .keyword .const ∈ w, isAbstract || .keyword .abstract ∈ w) rest := by
  induction w generalizing ts isConst isAbstract with
  | nil =>
    obtain rfl := h.nil
    obtain ⟨s, rest, rfl⟩ := Tokens.of_peek hrest
    simp [modifiers, Passed.Is]
  | cons t w ih =>
    obtain ⟨s, us, rfl, h₁⟩ := h.cons
    obtain ⟨ht, hothers⟩ := List.forall_mem_cons.1 hmods
    rcases ht with rfl | rfl
    · obtain ⟨hflags, hleft⟩ := ih hothers h₁ true isAbstract
      rw [modifiers]
      exact ⟨hflags.trans (by simp), hleft⟩
    · obtain ⟨hflags, hleft⟩ := ih hothers h₁ isConst true
      rw [modifiers]
      exact ⟨hflags.trans (by simp), hleft⟩

/-! ## What the parser does with a phrase -/

/-- The signs that close a list of expressions. -/
def Sign.closes : Sign → Bool
  | .rParen | .rBracket => true
  | _ => false

variable (size minus) in
/-- The parser reads the phrase from `ts` and leaves `rest`. Behind the operands of a tier, and
behind something that more may be applied to, it goes on. -/
def Phrase.ReadFrom : Phrase → (ts rest : Tokens) → Prop
  | .tier t node, ts, rest => Gives (BoxScript.tier size minus t ts) (·.Is node rest)
  | .operands t left, ts, rest => ∀ {node rest'},
    Gives (operators size minus t left rest) (·.Is node rest') →
      Gives (BoxScript.tier size minus t ts) (·.Is node rest')
  | .applied target, ts, rest => ∀ {node rest'},
    Gives (BoxScript.applied size minus target rest) (·.Is node rest') →
      Gives (BoxScript.tier size minus .unary ts) (·.Is node rest')
  | .primary node, ts, rest => Gives (BoxScript.primary size minus ts) (·.Is node rest)
  | .optionalArgs args, ts, rest => Gives (BoxScript.optionalArgs size minus ts) (·.Is args rest)
  | .items close nodes, ts, rest => close.closes = true →
    Gives (BoxScript.items size minus close ts) (·.Is nodes rest)
  | .moreItems close nodes, ts, rest => close.closes = true →
    Gives (BoxScript.moreItems size minus close ts) (·.Is nodes rest)
  | .statement node, ts, rest => Gives (BoxScript.statement size minus ts) (·.Is node rest)
  | .block nodes, ts, rest =>
    (∀ elseToo, (∃ u ∈ rest.peek, endsBlock elseToo u = true) →
      Gives (BoxScript.block size minus elseToo ts) (·.Is nodes rest)) ∧
    (rest = [] → statements size minus ts = .ok nodes)
  | .routine r, ts, rest => Gives (BoxScript.routine size minus ts) (·.Is r rest)
  | .body nodes, ts, rest => Gives (routineBody size minus ts) (·.Is nodes rest)
  | .members ms, ts, rest => Gives (BoxScript.members size minus ts) (·.Is ms rest)

variable (size minus) in
/-- The parser reads the phrase wherever the tokens `w` stand before `next`. -/
def Parses (ph : Phrase) (w : List Token) (next : Option Token) : Prop :=
  ∀ ts rest : Tokens, Stands w ts rest → rest.peek = next → ph.ReadFrom size minus ts rest

/-! ## Expressions -/

/-- A phrase that is not empty begins with what is seen. -/
theorem peek_of_head {ts rest : Tokens} {w : List Token} (h : ts.words = w ++ rest.words)
    {u : Token} (hu : u ∈ w.head?) : ts.peek = some u := by
  rw [Tokens.peek_eq, h]
  exact List.mem_head?_append_of_mem_head? hu

theorem expr_eq (ts : Tokens) : expr size minus ts = tier size minus .logic ts := by rw [expr]

/-- What the parser reads begins with a token that such a phrase begins with. -/
theorem Gives.begins {ph : α → Phrase} {starts : Token → Bool} {ts : Tokens} {x : Reading α ts}
    {P : Parsed α ts → Prop} (h : Gives x P)
    (htaken : Yields (fun p => Took minus (ph p.value) ts p.rest) x)
    (hbegins : ∀ {value w next}, Derives minus AnyModifiers (ph value) w next →
      ∃ u ∈ w.head?, starts u = true) : ∃ u, ts.peek = some u ∧ starts u = true := by
  obtain ⟨p, hp, -⟩ := h
  obtain ⟨w, hw, hderives⟩ := htaken p hp
  obtain ⟨u, hu, hstarts⟩ := hbegins hderives
  exact ⟨u, peek_of_head hw hu, hstarts⟩

/-- Where a primary can be read, the token that is seen begins one. -/
theorem startsPrimary_of_gives {ts : Tokens} {P : Parsed Node ts → Prop}
    (h : Gives (primary size minus ts) P) : ∃ u, ts.peek = some u ∧ u.startsPrimary = true :=
  h.begins (taken_primary (exprsTaken _) (Nat.le_refl _)) fun hnode => hnode.begins fun _ => id

theorem startsExpr_of_gives {t : Tier} {ts : Tokens} {P : Parsed Node ts → Prop}
    (h : Gives (tier size minus t ts) P) : ∃ u, ts.peek = some u ∧ u.startsExpr = true :=
  h.begins ((exprsTaken _).tier t (Nat.lt_succ_self _)) fun hnode => hnode.begins fun _ => id

theorem startsStatement_of_gives {ts : Tokens} {P : Parsed Node ts → Prop}
    (h : Gives (statement size minus ts) P) :
    ∃ u, ts.peek = some u ∧ u.startsStatement = true :=
  h.begins ((statementsTaken _).statement (Nat.lt_succ_self _)) fun hnode =>
    hnode.begins fun _ => id

theorem Gives.first {x : Except SyntaxError α} {f : α → Except SyntaxError β} {Q : β → Prop}
    (h : Gives (x >>= f) Q) : Gives x fun _ => True := by
  cases x with
  | error e => obtain ⟨_, ⟨⟩, -⟩ := h
  | ok a => exact ⟨a, rfl, trivial⟩

/-- Where a primary can be read, no minus stands in front of it. -/
theorem unary_eq_postfixed {ts : Tokens} {P : Parsed Node ts → Prop}
    (h : Gives (primary size minus ts) P) : unary size minus ts = postfixed size minus ts := by
  obtain ⟨t, ht, hstarts⟩ := startsPrimary_of_gives h
  unfold unary
  split
  · cases ht
    cases hstarts
  · rfl

/-- What is read from the operators of the tighter tiers on is read from a tier on. -/
theorem gives_tier {t : Tier} (ht : t ≠ .unary) {ts rest rest' : Tokens} {left node : Node}
    (hleft : Gives (tier size minus t.tighter ts) (·.Is left rest))
    (hfurther : Gives (operators size minus t left rest) (·.Is node rest')) :
    Gives (tier size minus t ts) (·.Is node rest') := by
  rw [tier, dif_neg ht]
  exact hleft.next fun _ => hfurther.pass fun _ => gives_pure ⟨rfl, rfl⟩

/-- The operators of a tier end before a token that is none of them. -/
theorem gives_operators_end {t : Tier} {node : Node} {rest : Tokens}
    (hends : ∀ u ∈ rest.peek, t.op? u = none) :
    Gives (operators size minus t node rest) (·.Is node rest) := by
  cases rest with
  | nil =>
    rw [operators]
    exact ⟨_, rfl, rfl, rfl⟩
  | cons front rest =>
    obtain ⟨u, s⟩ := front
    rw [operators, hends u rfl]
    exact ⟨_, rfl, rfl, rfl⟩

/-- Nothing is applied to an operand where nothing applicable stands behind it. -/
theorem gives_applied_end {node : Node} {rest : Tokens}
    (hends : ∀ u ∈ rest.peek, u.applies = false) :
    Gives (applied size minus node rest) (·.Is node rest) := by
  unfold applied
  split
  · cases hends _ rfl
  · cases hends _ rfl
  · cases hends _ rfl
  · exact ⟨_, rfl, rfl, rfl⟩

theorem gives_noArgs {rest : Tokens} (hends : rest.peek ≠ some (.sign .lParen)) :
    Gives (optionalArgs size minus rest) (·.Is none rest) := by
  unfold optionalArgs
  split
  · exact absurd rfl hends
  · exact ⟨_, rfl, rfl, rfl⟩

section Rules

variable {w w' : List Token} {next : Option Token} {node : Node}

theorem parses_minus (h : Parses size minus (.tier .unary node) w next) :
    Parses size minus (.tier .unary (minus node)) (.sign .minus :: w) next := by
  intro ts rest hw hrest
  obtain ⟨s, us, rfl, hw₁⟩ := hw.cons
  have hoperand : Gives (tier size minus .unary us) _ := h us rest hw₁ hrest
  show Gives (tier size minus .unary _) _
  rw [tier, dif_pos rfl] at hoperand ⊢
  rw [unary]
  exact hoperand.next fun _ => gives_pure ⟨rfl, rfl⟩

/-- An operand of a tier is a row of operators without an operator. -/
theorem parses_operand {t : Tier} (ht : t ≠ .unary)
    (h : Parses size minus (.tier t.tighter node) w next) :
    Parses size minus (.operands t node) w next :=
  fun ts rest hw hrest _ _ hfurther => gives_tier ht (h ts rest hw hrest) hfurther

/-- A row grows by an operator of its tier and the operand behind that. -/
theorem parses_operator {t : Tier} {token : Token} {op : BinOp} {left right : Node}
    (hleft : Parses size minus (.operands t left) w (some token)) (hop : t.op? token = some op)
    (hright : Parses size minus (.tier t.tighter right) w' next) :
    Parses size minus (.operands t (.binary op left right)) (w ++ token :: w') next := by
  intro ts rest hw hrest node rest' hfurther
  obtain ⟨us, hw₁, hw₂⟩ := hw.append
  obtain ⟨s, vs, rfl, hw₃⟩ := hw₂.cons
  refine hleft ts _ hw₁ rfl ?_
  rw [operators, hop]
  exact (hright vs rest hw₃ hrest).next fun _ => hfurther.pass fun _ => gives_pure ⟨rfl, rfl⟩

theorem parses_applied (h : Parses size minus (.primary node) w next) :
    Parses size minus (.applied node) w next := by
  intro ts rest hw hrest node' rest' hfurther
  have hprimary : Gives (primary size minus ts) _ := h ts rest hw hrest
  rw [tier, dif_pos rfl, unary_eq_postfixed hprimary, postfixed]
  exact hprimary.next fun _ => hfurther.pass fun _ => gives_pure ⟨rfl, rfl⟩

theorem parses_index {target position : Node}
    (htarget : Parses size minus (.applied target) w (some (.sign .lBracket)))
    (hposition : Parses size minus (.expr position) w' (some (.sign .rBracket))) :
    Parses size minus (.applied (.index target position))
      (w ++ .sign .lBracket :: (w' ++ [.sign .rBracket])) next := by
  intro ts rest hw hrest node rest' hfurther
  obtain ⟨us, hw₁, hw₂⟩ := hw.append
  obtain ⟨s, vs, rfl, hw₃⟩ := hw₂.cons
  obtain ⟨xs, hw₄, hw₅⟩ := hw₃.append
  obtain ⟨s', rfl⟩ := hw₅.one
  refine htarget ts _ hw₁ rfl ?_
  rw [applied, expr_eq]
  refine (hposition vs _ hw₄ rfl).next fun _ => ?_
  refine (gives_expect (.sign .rBracket) s' rest).next fun _ => ?_
  exact hfurther.pass fun _ => gives_pure ⟨rfl, rfl⟩

theorem parses_extension {target : Node} {name : String} {args : Option (List Node)}
    (htarget : Parses size minus (.applied target) w (some (.sign .colon)))
    (hargs : Parses size minus (.optionalArgs args) w' next) :
    Parses size minus (.applied (.extension target name (args.getD [])))
      (w ++ .sign .colon :: .ident name :: w') next := by
  intro ts rest hw hrest node rest' hfurther
  obtain ⟨us, hw₁, hw₂⟩ := hw.append
  obtain ⟨s, vs, rfl, hw₃⟩ := hw₂.cons
  obtain ⟨s', xs, rfl, hw₄⟩ := hw₃.cons
  refine htarget ts _ hw₁ rfl ?_
  rw [applied]
  refine (gives_expectName .extensionName name s' _).next fun _ => ?_
  refine (hargs xs rest hw₄ hrest).pass fun _ => ?_
  exact hfurther.pass fun _ => gives_pure ⟨rfl, rfl⟩

theorem parses_args {args : List Node} (h : Parses size minus (.items .rParen args) w next) :
    Parses size minus (.optionalArgs (some args)) (.sign .lParen :: w) next := by
  intro ts rest hw hrest
  obtain ⟨s, us, rfl, hw₁⟩ := hw.cons
  show Gives (optionalArgs size minus _) _
  rw [optionalArgs]
  exact (h us rest hw₁ hrest rfl).next fun _ => gives_pure ⟨rfl, rfl⟩

/-- A name is followed by a field if no parenthesis says that it is a call. -/
theorem parses_field {holder name : String}
    (hholder : Parses size minus (.applied (.var holder)) w (some (.sign .dot)))
    (hends : next ≠ some (.sign .lParen)) :
    Parses size minus (.applied (.field holder name)) (w ++ [.sign .dot, .ident name]) next := by
  intro ts rest hw hrest node rest' hfurther
  obtain ⟨us, hw₁, hw₂⟩ := hw.append
  obtain ⟨s, vs, rfl, hw₃⟩ := hw₂.cons
  obtain ⟨s', rfl⟩ := hw₃.one
  refine hholder ts _ hw₁ rfl ?_
  rw [applied]
  refine (gives_expectName .memberName name s' _).next fun _ => ?_
  refine (gives_noArgs (hrest ▸ hends)).pass fun _ => ?_
  exact hfurther.pass fun _ => gives_pure ⟨rfl, rfl⟩

theorem memberCall_eq {target node : Node} {call : Invocation} (dot : Span)
    (hcall : target.called? call = some node) : memberCall dot target call = .ok node := by
  unfold Node.called? at hcall
  split at hcall <;> cases hcall <;> rfl

theorem parses_method {target : Node} {name : String} {args : List Node}
    (htarget : Parses size minus (.applied target) w (some (.sign .dot)))
    (hargs : Parses size minus (.items .rParen args) w' next)
    (hcall : target.called? ⟨name, args⟩ = some node) :
    Parses size minus (.applied node)
      (w ++ .sign .dot :: .ident name :: .sign .lParen :: w') next := by
  intro ts rest hw hrest node' rest' hfurther
  obtain ⟨us, hw₁, hw₂⟩ := hw.append
  obtain ⟨s, vs, rfl, hw₃⟩ := hw₂.cons
  obtain ⟨s', xs, rfl, hw₄⟩ := hw₃.cons
  refine htarget ts _ hw₁ rfl ?_
  rw [applied]
  refine (gives_expectName .memberName name s' _).next fun _ => ?_
  refine (parses_args hargs xs rest hw₄ hrest).pass fun _ => ?_
  dsimp only
  rw [memberCall_eq s hcall]
  exact hfurther.pass fun _ => gives_pure ⟨rfl, rfl⟩

theorem parses_noItems {close : Sign} :
    Parses size minus (.items close []) [.sign close] next := by
  intro ts rest hw hrest hclose
  obtain ⟨s, rfl⟩ := hw.one
  have hpeek : Tokens.peek ((.sign close, s) :: rest) = some (.sign close) := rfl
  rw [items, if_pos hpeek]
  exact (gives_expect (.sign close) s rest).next fun _ => gives_pure ⟨rfl, rfl⟩

theorem parses_items {close : Sign} {nodes : List Node}
    (h : Parses size minus (.moreItems close nodes) w next) :
    Parses size minus (.items close nodes) w next := by
  intro ts rest hw hrest hclose
  have hmore : Gives (moreItems size minus close ts) _ := h ts rest hw hrest hclose
  have hpeek : ts.peek ≠ some (.sign close) := by
    intro hpeek
    have hitem := hmore
    rw [moreItems, expr_eq] at hitem
    obtain ⟨u, hu, hstarts⟩ := startsExpr_of_gives hitem.first
    rw [hpeek] at hu
    cases hu
    cases close <;> cases hstarts <;> cases hclose
  rw [items, if_neg hpeek]
  exact hmore

theorem parses_lastItem {close : Sign}
    (h : Parses size minus (.expr node) w (some (.sign close))) :
    Parses size minus (.moreItems close [node]) (w ++ [.sign close]) next := by
  intro ts rest hw hrest hclose
  obtain ⟨us, hw₁, hw₂⟩ := hw.append
  obtain ⟨s, rfl⟩ := hw₂.one
  rw [moreItems, expr_eq]
  refine (h ts _ hw₁ rfl).next fun _ => ?_
  have hcomma : Tokens.peek ((.sign close, s) :: rest) ≠ some (.sign .comma) := by
    rintro ⟨⟩
    cases hclose
  dsimp only
  rw [accept_missing hcomma]
  exact (gives_expect (.sign close) s rest).next fun _ => gives_pure ⟨rfl, rfl⟩

theorem parses_moreItems {close : Sign} {nodes : List Node}
    (h : Parses size minus (.expr node) w (some (.sign .comma)))
    (hmore : Parses size minus (.moreItems close nodes) w' next) :
    Parses size minus (.moreItems close (node :: nodes)) (w ++ .sign .comma :: w') next := by
  intro ts rest hw hrest hclose
  obtain ⟨us, hw₁, hw₂⟩ := hw.append
  obtain ⟨s, vs, rfl, hw₃⟩ := hw₂.cons
  rw [moreItems, expr_eq]
  refine (h ts _ hw₁ rfl).next fun _ => ?_
  dsimp only
  rw [accept_here]
  exact (hmore vs rest hw₃ hrest hclose).next fun _ => gives_pure ⟨rfl, rfl⟩

/-- A name is a variable if no parenthesis says that it is a call. -/
theorem parses_var (name : String) (hends : next ≠ some (.sign .lParen)) :
    Parses size minus (.primary (.var name)) [.ident name] next := by
  intro ts rest hw hrest
  obtain ⟨s, rfl⟩ := hw.one
  show Gives (primary size minus _) _
  rw [primary]
  exact (gives_noArgs (hrest ▸ hends)).pass fun _ => gives_pure ⟨rfl, rfl⟩

theorem parses_call (name : String) {args : List Node}
    (h : Parses size minus (.items .rParen args) w next) :
    Parses size minus (.primary (.call name args)) (.ident name :: .sign .lParen :: w) next := by
  intro ts rest hw hrest
  obtain ⟨s, us, rfl, hw₁⟩ := hw.cons
  show Gives (primary size minus _) _
  rw [primary]
  exact (parses_args h us rest hw₁ hrest).pass fun _ => gives_pure ⟨rfl, rfl⟩

theorem parses_parens (h : Parses size minus (.expr node) w (some (.sign .rParen))) :
    Parses size minus (.primary node) (.sign .lParen :: (w ++ [.sign .rParen])) next := by
  intro ts rest hw hrest
  obtain ⟨s, us, rfl, hw₁⟩ := hw.cons
  obtain ⟨vs, hw₂, hw₃⟩ := hw₁.append
  obtain ⟨s', rfl⟩ := hw₃.one
  show Gives (primary size minus _) _
  rw [primary, expr_eq]
  refine (h us _ hw₂ rfl).next fun _ => ?_
  exact (gives_expect (.sign .rParen) s' rest).next fun _ => gives_pure ⟨rfl, rfl⟩

theorem parses_array {elements : List Node}
    (h : Parses size minus (.items .rBracket elements) w next) :
    Parses size minus (.primary (.array elements)) (.sign .lBracket :: w) next := by
  intro ts rest hw hrest
  obtain ⟨s, us, rfl, hw₁⟩ := hw.cons
  show Gives (primary size minus _) _
  rw [primary]
  exact (h us rest hw₁ hrest rfl).next fun _ => gives_pure ⟨rfl, rfl⟩

theorem parses_create (box : String) :
    Parses size minus (.primary (.create box)) [.keyword .create, .ident box] next := by
  intro ts rest hw hrest
  obtain ⟨s, us, rfl, hw₁⟩ := hw.cons
  obtain ⟨s', rfl⟩ := hw₁.one
  show Gives (primary size minus _) _
  rw [primary]
  exact (gives_expectName .boxName box s' rest).next fun _ => gives_pure ⟨rfl, rfl⟩

theorem parses_reader {k : Keyword} {f : Node → Node} {path : Node} (hk : k.reader? = some f)
    (h : Parses size minus (.expr path) w (some (.sign .rParen))) :
    Parses size minus (.primary (f path)) (.keyword k :: .sign .lParen :: (w ++ [.sign .rParen]))
      next := by
  intro ts rest hw hrest
  obtain ⟨s, us, rfl, hw₁⟩ := hw.cons
  have hpath : Gives (inParens size minus us) (·.Is path rest) := by
    obtain ⟨s', vs, rfl, hw₂⟩ := hw₁.cons
    obtain ⟨xs, hw₃, hw₄⟩ := hw₂.append
    obtain ⟨s'', rfl⟩ := hw₄.one
    rw [inParens]
    refine (gives_expect (.sign .lParen) s' vs).next fun _ => ?_
    dsimp only
    rw [expr_eq]
    refine (h vs _ hw₃ rfl).next fun _ => ?_
    exact (gives_expect (.sign .rParen) s'' rest).next fun _ => gives_pure ⟨rfl, rfl⟩
  show Gives (primary size minus _) _
  unfold Keyword.reader? at hk
  split at hk <;> cases hk <;> rw [primary] <;>
    exact hpath.next fun _ => gives_pure ⟨rfl, rfl⟩

/-- Something that more may be applied to is an expression before a token that is not for it. -/
theorem parses_expr (h : Parses size minus (.applied node) w next)
    (happlies : ∀ u ∈ next, u.applies = false) (hops : ∀ u ∈ next, ∀ t : Tier, t.op? u = none) :
    Parses size minus (.expr node) w next := by
  intro ts rest hw hrest
  subst hrest
  have hunary : Gives (tier size minus .unary ts) (·.Is node rest) :=
    h ts rest hw rfl (gives_applied_end happlies)
  have hloosen : ∀ {t : Tier}, t ≠ .unary → Gives (tier size minus t.tighter ts) (·.Is node rest) →
      Gives (tier size minus t ts) (·.Is node rest) :=
    fun ht htighter => gives_tier ht htighter (gives_operators_end fun u hu => hops u hu _)
  have hproduct := hloosen (t := .product) (by decide) hunary
  have hsum := hloosen (t := .sum) (by decide) hproduct
  have hcomparison := hloosen (t := .comparison) (by decide) hsum
  exact hloosen (t := .logic) (by decide) hcomparison

end Rules

end BoxScript
