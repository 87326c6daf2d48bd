import BoxScript.Proofs.Exactness

/-!
# The parser reads every derivation

The parser and the grammar are the same relation between tokens and trees, and the grammar gives no
tokens two trees. The rules of the statements and of the boxes are gone through here; those of the
expressions are in `BoxScript.Proofs.Exactness`. The induction at the end is on the derivation.
-/

namespace BoxScript

variable {size : Nat} {minus : Node → Node} {α : Type}

/-! ## Statements -/

theorem Gives.unique {ts rest rest' : Tokens} {v v' : α} {x : Reading α ts}
    (h : Gives x (·.Is v rest)) (h' : Gives x (·.Is v' rest')) : rest = rest' := by
  obtain ⟨p, rfl, -, rfl⟩ := h
  obtain ⟨_, ⟨⟩, -, rfl⟩ := h'
  rfl

/-- Words that stand between two places are determined by these. -/
theorem Stands.unique {w w' : List Token} {ts rest : Tokens} (h : Stands w ts rest)
    (h' : Stands w' ts rest) : w = w' := by
  obtain ⟨ws, rfl, rfl⟩ := h
  obtain ⟨ws', rfl, heq⟩ := h'
  rw [List.append_cancel_right heq]

/-- Where an assignment begins with an expression, the sign of the assignment is behind it. -/
theorem expr_before_sign {w : List Token} {node : Node} {ts rest : Tokens} (hw : Stands w ts rest)
    (h : Gives (tier size minus .logic ts) (·.Is node rest))
    (hstarts : startsAssignment ts.words = true) :
    rest.peek = some (.sign .eq) ∧ startsAssignment (w ++ [.sign .eq]) = true := by
  have hsign : ∀ {node' : Node} {w' : List Token} {s : Span} {us : Tokens},
      Parses size minus (.applied node') w' (some (.sign .eq)) →
      Stands w' ts ((.sign .eq, s) :: us) → w = w' ∧ rest.peek = some (.sign .eq) := by
    intro node' w' s us hnode' hw'
    have hexpr : Parses size minus (.expr node') w' (some (.sign .eq)) := by
      refine parses_expr hnode' ?_ ?_
      · rintro _ ⟨⟩
        rfl
      · rintro _ ⟨⟩ t
        cases t <;> rfl
    obtain rfl := h.unique (hexpr ts _ hw' rfl)
    exact ⟨hw.unique hw', rfl⟩
  -- an assignment begins with a name or with a field, each of them an expression in front of the
  -- sign
  rcases startsAssignment_words hstarts with
    ⟨name, s, s', us, rfl⟩ | ⟨holder, s, s₁, name, s₂, s₃, us, rfl⟩
  · have hvar : Parses size minus (.applied (.var name)) _ (some (.sign .eq)) :=
      parses_applied (parses_var name (by rintro ⟨⟩))
    obtain ⟨rfl, hpeek⟩ := hsign hvar ⟨[(.ident name, s)], rfl, rfl⟩
    exact ⟨hpeek, rfl⟩
  · have hholder : Parses size minus (.applied (.var holder)) _ (some (.sign .dot)) :=
      parses_applied (parses_var holder (by rintro ⟨⟩))
    have hfield : Parses size minus (.applied (.field holder name)) _ (some (.sign .eq)) :=
      parses_field hholder (by rintro ⟨⟩)
    obtain ⟨rfl, hpeek⟩ := hsign hfield
      ⟨[(.ident holder, s), (.sign .dot, s₁), (.ident name, s₂)], rfl, rfl⟩
    exact ⟨hpeek, rfl⟩

/-- What can be read as an expression and begins no assignment is read as an expression. -/
theorem statement_eq_expr {ts : Tokens} {P : Parsed Node ts → Prop}
    (h : Gives (tier size minus .logic ts) P) (hends : startsAssignment ts.words = false) :
    statement size minus ts = tier size minus .logic ts := by
  obtain ⟨u, hu, hstarts⟩ := startsExpr_of_gives h
  unfold statement
  split <;> first
    | exact expr_eq _
    | (cases hu; done)
    | (cases hu; cases hstarts; done)
    | cases hends

section Rules

variable {w w' : List Token} {next : Option Token} {node : Node}

theorem parses_function {r : Routine} (h : Parses size minus (.routine r) w next) :
    Parses size minus (.statement (.function r)) (.keyword .function :: w) next := by
  intro ts rest hw hrest
  obtain ⟨s, us, rfl, hw₁⟩ := hw.cons
  show Gives (statement size minus _) _
  rw [statement]
  exact (h us rest hw₁ hrest).next fun _ => gives_pure ⟨rfl, rfl⟩

theorem parses_giveBackNone : Parses size minus (.statement (.giveBack none))
    [.keyword .giveBack, .keyword .void] next := by
  intro ts rest hw hrest
  obtain ⟨s, us, rfl, hw₁⟩ := hw.cons
  obtain ⟨s', rfl⟩ := hw₁.one
  show Gives (statement size minus _) _
  rw [statement]
  exact ⟨_, rfl, rfl, rfl⟩

theorem parses_command {k : Keyword} {f : Node → Node} {value : Node} (hk : k.command? = some f)
    (h : Parses size minus (.expr value) w next) :
    Parses size minus (.statement (f value)) (.keyword k :: w) next := by
  intro ts rest hw hrest
  obtain ⟨s, us, rfl, hw₁⟩ := hw.cons
  have hvalue : Gives (expr size minus us) (·.Is value rest) := by
    rw [expr_eq]
    exact h us rest hw₁ hrest
  -- no expression begins with `void`
  have hvoid : ∀ s' vs, us = (.keyword .void, s') :: vs → False := by
    rintro s' vs rfl
    rw [expr_eq] at hvalue
    obtain ⟨u, ⟨⟩, ⟨⟩⟩ := startsExpr_of_gives hvalue
  show Gives (statement size minus _) _
  unfold Keyword.command? at hk
  split at hk <;> cases hk <;> rw [statement] <;>
    first | exact hvoid | exact hvalue.next fun _ => gives_pure ⟨rfl, rfl⟩

theorem parses_ifThen {condition : Node} {yes : List Node}
    (hcondition : Parses size minus (.expr condition) w (ahead w' (some (.keyword .endBlock))))
    (hyes : Parses size minus (.block yes) w' (some (.keyword .endBlock))) :
    Parses size minus (.statement (.ifElse condition yes none))
      (.keyword .ifThen :: (w ++ (w' ++ [.keyword .endBlock]))) next := by
  intro ts rest hw hrest
  obtain ⟨s, us, rfl, hw₁⟩ := hw.cons
  obtain ⟨vs, hw₂, hw₃⟩ := hw₁.append
  obtain ⟨xs, hw₄, hw₅⟩ := hw₃.append
  obtain ⟨s', rfl⟩ := hw₅.one
  show Gives (statement size minus _) _
  rw [statement, expr_eq]
  refine (hcondition us vs hw₂ hw₄.peek).next fun _ => ?_
  refine ((hyes vs _ hw₄ rfl).1 true ⟨_, rfl, rfl⟩).pass fun _ => ?_
  dsimp only
  rw [accept_missing (by rintro ⟨⟩)]
  exact (gives_expect (.keyword .endBlock) s' rest).next fun _ => gives_pure ⟨rfl, rfl⟩

theorem parses_ifElse {condition : Node} {yes no : List Node} {w'' : List Token}
    (hcondition : Parses size minus (.expr condition) w (ahead w' (some (.keyword .otherwise))))
    (hyes : Parses size minus (.block yes) w' (some (.keyword .otherwise)))
    (hno : Parses size minus (.block no) w'' (some (.keyword .endBlock))) :
    Parses size minus (.statement (.ifElse condition yes (some no)))
      (.keyword .ifThen :: (w ++ (w' ++ .keyword .otherwise :: (w'' ++ [.keyword .endBlock]))))
      next := by
  intro ts rest hw hrest
  obtain ⟨s, us, rfl, hw₁⟩ := hw.cons
  obtain ⟨vs, hw₂, hw₃⟩ := hw₁.append
  obtain ⟨xs, hw₄, hw₅⟩ := hw₃.append
  obtain ⟨s', ys, rfl, hw₆⟩ := hw₅.cons
  obtain ⟨zs, hw₇, hw₈⟩ := hw₆.append
  obtain ⟨s'', rfl⟩ := hw₈.one
  show Gives (statement size minus _) _
  rw [statement, expr_eq]
  refine (hcondition us vs hw₂ hw₄.peek).next fun _ => ?_
  refine ((hyes vs _ hw₄ rfl).1 true ⟨_, rfl, rfl⟩).pass fun _ => ?_
  dsimp only
  rw [accept_here]
  refine ((hno ys _ hw₇ rfl).1 false ⟨_, rfl, rfl⟩).pass fun _ => ?_
  exact (gives_expect (.keyword .endBlock) s'' rest).next fun _ => gives_pure ⟨rfl, rfl⟩

theorem parses_whileDo {condition : Node} {body : List Node}
    (hcondition : Parses size minus (.expr condition) w (ahead w' (some (.keyword .endBlock))))
    (hbody : Parses size minus (.block body) w' (some (.keyword .endBlock))) :
    Parses size minus (.statement (.whileDo condition body))
      (.keyword .whileDo :: (w ++ (w' ++ [.keyword .endBlock]))) next := by
  intro ts rest hw hrest
  obtain ⟨s, us, rfl, hw₁⟩ := hw.cons
  obtain ⟨vs, hw₂, hw₃⟩ := hw₁.append
  obtain ⟨xs, hw₄, hw₅⟩ := hw₃.append
  obtain ⟨s', rfl⟩ := hw₅.one
  show Gives (statement size minus _) _
  rw [statement, expr_eq]
  refine (hcondition us vs hw₂ hw₄.peek).next fun _ => ?_
  refine ((hbody vs _ hw₄ rfl).1 false ⟨_, rfl, rfl⟩).pass fun _ => ?_
  exact (gives_expect (.keyword .endBlock) s' rest).next fun _ => gives_pure ⟨rfl, rfl⟩

/-- A loop has three heads, with semicolons between the first two. -/
theorem parses_forDo {init condition increment : Node} {body : List Node}
    {w₁ w₂ w₃ w₄ : List Token}
    (hinit : Parses size minus (.statement init) w₁ (some (.sign .semi)))
    (hcondition : Parses size minus (.expr condition) w₂ (some (.sign .semi)))
    (hincrement : Parses size minus (.statement increment) w₃
      (ahead w₄ (some (.keyword .endBlock))))
    (hbody : Parses size minus (.block body) w₄ (some (.keyword .endBlock))) :
    Parses size minus (.statement (.forDo init condition increment body))
      (.keyword .forDo :: (w₁ ++ .sign .semi :: (w₂ ++ .sign .semi ::
        (w₃ ++ (w₄ ++ [.keyword .endBlock]))))) next := by
  intro ts rest hw hrest
  obtain ⟨s, us, rfl, h⟩ := hw.cons
  obtain ⟨vs₁, h₁, h⟩ := h.append
  obtain ⟨s₁, us₁, rfl, h'⟩ := h.cons
  obtain ⟨vs₂, h₂, h⟩ := h'.append
  obtain ⟨s₂, us₂, rfl, h'⟩ := h.cons
  obtain ⟨vs₃, h₃, h⟩ := h'.append
  obtain ⟨vs₄, h₄, h⟩ := h.append
  obtain ⟨s₃, rfl⟩ := h.one
  show Gives (statement size minus _) _
  rw [statement]
  refine (hinit us _ h₁ rfl).next fun _ => ?_
  refine (gives_expect (.sign .semi) s₁ us₁).next fun _ => ?_
  dsimp only
  rw [expr_eq]
  refine (hcondition us₁ _ h₂ rfl).next fun _ => ?_
  refine (gives_expect (.sign .semi) s₂ us₂).next fun _ => ?_
  refine (hincrement us₂ _ h₃ h₄.peek).next fun _ => ?_
  refine ((hbody vs₃ _ h₄ rfl).1 false ⟨_, rfl, rfl⟩).pass fun _ => ?_
  exact (gives_expect (.keyword .endBlock) s₃ rest).next fun _ => gives_pure ⟨rfl, rfl⟩

/-- A declaration of an extension has four arguments. -/
theorem parses_extend {kind box function arity : Node} {w₁ w₂ w₃ w₄ : List Token}
    (hkind : Parses size minus (.expr kind) w₁ (some (.sign .comma)))
    (hbox : Parses size minus (.expr box) w₂ (some (.sign .comma)))
    (hfunction : Parses size minus (.expr function) w₃ (some (.sign .comma)))
    (harity : Parses size minus (.expr arity) w₄ (some (.sign .rParen))) :
    Parses size minus (.statement (.extend kind box function arity))
      (.keyword .extension :: .sign .lParen :: (w₁ ++ .sign .comma :: (w₂ ++ .sign .comma ::
        (w₃ ++ .sign .comma :: (w₄ ++ [.sign .rParen]))))) next := by
  intro ts rest hw hrest
  obtain ⟨s, us, rfl, h⟩ := hw.cons
  obtain ⟨s₀, us₀, rfl, h'⟩ := h.cons
  obtain ⟨vs₁, h₁, h⟩ := h'.append
  obtain ⟨s₁, us₁, rfl, h'⟩ := h.cons
  obtain ⟨vs₂, h₂, h⟩ := h'.append
  obtain ⟨s₂, us₂, rfl, h'⟩ := h.cons
  obtain ⟨vs₃, h₃, h⟩ := h'.append
  obtain ⟨s₃, us₃, rfl, h'⟩ := h.cons
  obtain ⟨vs₄, h₄, h⟩ := h'.append
  obtain ⟨s₄, rfl⟩ := h.one
  show Gives (statement size minus _) _
  rw [statement]
  simp only [expr_eq]
  refine (gives_expect (.sign .lParen) s₀ us₀).next fun _ => ?_
  refine (hkind us₀ _ h₁ rfl).next fun _ => ?_
  refine (gives_expect (.sign .comma) s₁ us₁).next fun _ => ?_
  refine (hbox us₁ _ h₂ rfl).next fun _ => ?_
  refine (gives_expect (.sign .comma) s₂ us₂).next fun _ => ?_
  refine (hfunction us₂ _ h₃ rfl).next fun _ => ?_
  refine (gives_expect (.sign .comma) s₃ us₃).next fun _ => ?_
  refine (harity us₃ _ h₄ rfl).next fun _ => ?_
  exact (gives_expect (.sign .rParen) s₄ rest).next fun _ => gives_pure ⟨rfl, rfl⟩

theorem parses_assign {name : String} {value : Node}
    (h : Parses size minus (.expr value) w next) :
    Parses size minus (.statement (.assign name value)) (.ident name :: .sign .eq :: w) next := by
  intro ts rest hw hrest
  obtain ⟨s, us, rfl, hw₁⟩ := hw.cons
  obtain ⟨s', vs, rfl, hw₂⟩ := hw₁.cons
  show Gives (statement size minus _) _
  rw [statement, expr_eq]
  exact (h vs rest hw₂ hrest).next fun _ => gives_pure ⟨rfl, rfl⟩

theorem parses_setField {holder field : String} {value : Node}
    (h : Parses size minus (.expr value) w next) :
    Parses size minus (.statement (.setField holder field value))
      (.ident holder :: .sign .dot :: .ident field :: .sign .eq :: w) next := by
  intro ts rest hw hrest
  obtain ⟨s, us, rfl, hw₁⟩ := hw.cons
  obtain ⟨s₁, us₁, rfl, hw₂⟩ := hw₁.cons
  obtain ⟨s₂, us₂, rfl, hw₃⟩ := hw₂.cons
  obtain ⟨s₃, us₃, rfl, hw₄⟩ := hw₃.cons
  show Gives (statement size minus _) _
  rw [statement, expr_eq]
  exact (h us₃ rest hw₄ hrest).next fun _ => gives_pure ⟨rfl, rfl⟩

/-- An expression is a statement if it does not begin as an assignment. -/
theorem parses_expression (h : Parses size minus (.expr node) w next)
    (hends : startsAssignment (w ++ next.toList) = false) :
    Parses size minus (.statement node) w next := by
  intro ts rest hw hrest
  have hexpr : Gives (tier size minus .logic ts) (·.Is node rest) := h ts rest hw hrest
  have hfront : startsAssignment ts.words = false := by
    refine Bool.eq_false_iff.2 fun hstarts => ?_
    obtain ⟨hpeek, hsign⟩ := expr_before_sign hw hexpr hstarts
    rw [← hrest, hpeek] at hends
    exact Bool.false_ne_true (hends.symm.trans hsign)
  show Gives (statement size minus _) _
  rw [statement_eq_expr hexpr hfront]
  exact hexpr

theorem parses_noStatements : Parses size minus (.block []) [] next := by
  intro ts rest hw hrest
  obtain rfl := hw.nil
  constructor
  · rintro elseToo ⟨u, hu, hends⟩
    obtain ⟨s, us, rfl⟩ := Tokens.of_peek hu
    rw [block, if_pos hends]
    exact ⟨_, rfl, rfl, rfl⟩
  · rintro rfl
    rw [statements]

/-- No block ends before a statement. -/
theorem endsBlock_false {u : Token} (h : u.startsStatement = true) (elseToo : Bool) :
    endsBlock elseToo u = false := by
  unfold endsBlock
  split <;> first | rfl | cases h

/-- A block goes on as long as statements begin. -/
theorem parses_statements {first : Node} {further : List Node}
    (hfirst : Parses size minus (.statement first) w (ahead w' next))
    (hfurther : Parses size minus (.block further) w' next) :
    Parses size minus (.block (first :: further)) (w ++ w') next := by
  intro ts rest hw hrest
  obtain ⟨us, hw₁, hw₂⟩ := hw.append
  subst hrest
  have hstatement : Gives (statement size minus ts) (·.Is first us) := hfirst ts us hw₁ hw₂.peek
  obtain ⟨u, hu, hstarts⟩ := startsStatement_of_gives hstatement
  obtain ⟨s, vs, rfl⟩ := Tokens.of_peek hu
  obtain ⟨hblock, hall⟩ := hfurther us rest hw₂ rfl
  constructor
  · intro elseToo hends
    rw [block, if_neg (by rw [endsBlock_false hstarts]; exact Bool.false_ne_true)]
    exact hstatement.next fun _ => (hblock elseToo hends).pass fun _ => gives_pure ⟨rfl, rfl⟩
  · intro hnone
    obtain ⟨p, hp, rfl, rfl⟩ := hstatement
    rw [statements, hp]
    show (statements size minus p.rest >>= _) = _
    rw [hall hnone]
    rfl

theorem parses_routine {name : String} {params : List String} {body : List Node}
    (h : Parses size minus (.body body) w next) :
    Parses size minus (.routine ⟨name, params, body⟩) (.ident name :: (paramWords params ++ w))
      next := by
  intro ts rest hw hrest
  obtain ⟨s, us, rfl, hw₁⟩ := hw.cons
  obtain ⟨vs, hw₂, hw₃⟩ := hw₁.append
  show Gives (routine size minus _) _
  rw [routine]
  refine (gives_expectName .functionName name s us).next fun _ => ?_
  refine (gives_paramList hw₂).next fun _ => ?_
  exact (h vs rest hw₃ hrest).next fun _ => gives_pure ⟨rfl, rfl⟩

theorem parses_bodyEnd : Parses size minus (.body []) [.keyword .endBlock] next := by
  intro ts rest hw hrest
  obtain ⟨s, rfl⟩ := hw.one
  show Gives (routineBody size minus _) _
  rw [routineBody]
  exact ⟨_, rfl, rfl, rfl⟩

theorem parses_bodyReturn {value : Option Node}
    (h : Parses size minus (.statement (.giveBack value)) w next) :
    Parses size minus (.body [.giveBack value]) w next := by
  intro ts rest hw hrest
  have hstatement : Gives (statement size minus ts) _ := h ts rest hw hrest
  obtain ⟨u, hu, hstarts⟩ := startsStatement_of_gives hstatement
  show Gives (routineBody size minus _) _
  unfold routineBody
  split
  · cases hu
  · cases hu
    cases hstarts
  · exact hstatement.next fun _ => gives_pure ⟨rfl, rfl⟩

theorem parses_body {first : Node} {further : List Node}
    (hfirst : Parses size minus (.statement first) w (ahead w' next))
    (hgoesOn : ∀ value, first ≠ .giveBack value)
    (hfurther : Parses size minus (.body further) w' next) :
    Parses size minus (.body (first :: further)) (w ++ w') next := by
  intro ts rest hw hrest
  obtain ⟨us, hw₁, hw₂⟩ := hw.append
  subst hrest
  have hstatement : Gives (statement size minus ts) (·.Is first us) := hfirst ts us hw₁ hw₂.peek
  obtain ⟨u, hu, hstarts⟩ := startsStatement_of_gives hstatement
  show Gives (routineBody size minus _) _
  unfold routineBody
  split
  · cases hu
  · cases hu
    cases hstarts
  · refine hstatement.next fun _ => ?_
    dsimp only
    split
    · next value => exact absurd rfl (hgoesOn value)
    · exact (hfurther us rest hw₂ rfl).next fun _ => gives_pure ⟨rfl, rfl⟩

theorem memberAccess_is {access : Access} (haccess : AccessWord access w) {ts rest : Tokens}
    (h : Stands w ts rest) (hguarded : rest.peek ≠ some (.keyword .guarded))
    (hexposed : rest.peek ≠ some (.keyword .exposed)) : (memberAccess ts).Is access rest := by
  cases haccess with
  | guarded | exposed =>
    obtain ⟨s, rfl⟩ := h.one
    exact ⟨rfl, rfl⟩
  | unsaid =>
    obtain rfl := h.nil
    unfold memberAccess
    split
    · exact absurd rfl hguarded
    · exact absurd rfl hexposed
    · exact ⟨rfl, rfl⟩

/-- Nothing but `end` is read as no members, and the word for an access is read before a member. -/
theorem members_member {access : Access} (haccess : AccessWord access w) {ts rest : Tokens}
    (h : Stands w ts rest) {t : Token} (ht : rest.peek = some t) (hends : t ≠ .keyword .endBlock)
    (hguarded : t ≠ .keyword .guarded) (hexposed : t ≠ .keyword .exposed) :
    ts.peek ≠ some (.keyword .endBlock) ∧ ∃ hle, memberAccess ts = ⟨access, rest, hle⟩ := by
  refine ⟨?_, ?_⟩
  · rw [h.peek, ht]
    cases haccess <;> simp [ahead, hends]
  · exact (memberAccess_is haccess h (by simp [ht, hguarded]) (by simp [ht, hexposed])).eq

theorem parses_noMembers : Parses size minus (.members ⟨[], []⟩) [.keyword .endBlock] next := by
  intro ts rest hw hrest
  obtain ⟨s, rfl⟩ := hw.one
  have hpeek : Tokens.peek ((.keyword .endBlock, s) :: rest) = some (.keyword .endBlock) := rfl
  show Gives (members size minus _) _
  rw [members, if_pos hpeek]
  exact (gives_expect (.keyword .endBlock) s rest).next fun _ => gives_pure ⟨rfl, rfl⟩

/-- A member with an initializer is a field. -/
theorem parses_memberField {access : Access} {name : String} {init : Node} {ms : Members}
    {w'' : List Token} (haccess : AccessWord access w)
    (hinit : Parses size minus (.expr init) w' (ahead w'' next))
    (hfurther : Parses size minus (.members ms) w'' next) :
    Parses size minus (.members (ms.addField ⟨name, init, access⟩))
      (w ++ .ident name :: .sign .eq :: (w' ++ w'')) next := by
  intro ts rest hw hrest
  subst hrest
  obtain ⟨us, hw₁, hw₂⟩ := hw.append
  obtain ⟨s, vs, rfl, hw₃⟩ := hw₂.cons
  obtain ⟨s', xs, rfl, hw₄⟩ := hw₃.cons
  obtain ⟨ys, hw₅, hw₆⟩ := hw₄.append
  obtain ⟨hpeek, hle, heq⟩ := members_member haccess hw₁ rfl nofun nofun nofun
  show Gives (members size minus _) _
  rw [members, if_neg hpeek]
  dsimp only [pure_bind]
  rw [heq]
  dsimp only
  rw [accept_missing (by rintro ⟨⟩)]
  dsimp only
  rw [accept_missing (by rintro ⟨⟩)]
  refine (gives_expectName .fieldName name s _).next fun _ => ?_
  refine (gives_expect (.sign .eq) s' xs).next fun _ => ?_
  dsimp only
  rw [expr_eq]
  refine (hinit xs ys hw₅ hw₆.peek).next fun _ => ?_
  exact (hfurther ys rest hw₆ rfl).next fun _ => gives_pure ⟨rfl, rfl⟩

theorem parses_memberFunction {access : Access} {r : Routine} {ms : Members} {w'' : List Token}
    (haccess : AccessWord access w) (hroutine : Parses size minus (.routine r) w' (ahead w'' next))
    (hfurther : Parses size minus (.members ms) w'' next) :
    Parses size minus (.members (ms.addMethod ⟨r, access, false⟩))
      (w ++ .keyword .function :: (w' ++ w'')) next := by
  intro ts rest hw hrest
  subst hrest
  obtain ⟨us, hw₁, hw₂⟩ := hw.append
  obtain ⟨s, vs, rfl, hw₃⟩ := hw₂.cons
  obtain ⟨xs, hw₄, hw₅⟩ := hw₃.append
  obtain ⟨hpeek, hle, heq⟩ := members_member haccess hw₁ rfl nofun nofun nofun
  show Gives (members size minus _) _
  rw [members, if_neg hpeek]
  dsimp only [pure_bind]
  rw [heq]
  dsimp only
  rw [accept_missing (by rintro ⟨⟩)]
  dsimp only
  rw [accept_here]
  refine (hroutine vs xs hw₄ hw₅.peek).next fun _ => ?_
  exact (hfurther xs rest hw₅ rfl).next fun _ => gives_pure ⟨rfl, rfl⟩

theorem parses_memberAbstract {access : Access} {name : String} {params : List String}
    {ms : Members} (haccess : AccessWord access w)
    (hfurther : Parses size minus (.members ms) w' next) :
    Parses size minus (.members (ms.addMethod ⟨⟨name, params, []⟩, access, true⟩))
      (w ++ .keyword .abstract :: .keyword .function :: .ident name :: (paramWords params ++ w'))
      next := by
  intro ts rest hw hrest
  obtain ⟨us, hw₁, hw₂⟩ := hw.append
  obtain ⟨s, vs, rfl, hw₃⟩ := hw₂.cons
  obtain ⟨s₁, vs₁, rfl, hw₄⟩ := hw₃.cons
  obtain ⟨s₂, vs₂, rfl, hw₅⟩ := hw₄.cons
  obtain ⟨xs, hw₆, hw₇⟩ := hw₅.append
  obtain ⟨hpeek, hle, heq⟩ := members_member haccess hw₁ rfl nofun nofun nofun
  show Gives (members size minus _) _
  rw [members, if_neg hpeek]
  dsimp only [pure_bind]
  rw [heq]
  dsimp only
  rw [accept_here]
  dsimp only
  rw [accept_here]
  refine (gives_expectName .functionName name s₂ vs₂).next fun _ => ?_
  refine (gives_paramList hw₆).next fun _ => ?_
  exact (hfurther xs rest hw₇ hrest).next fun _ => gives_pure ⟨rfl, rfl⟩

/-- Members never begin with a colon, so that a base cannot be taken for one. -/
theorem colon_not_member {ts : Tokens} {P : Parsed Members ts → Prop}
    (h : Gives (members size minus ts) P) : ts.peek ≠ some (.sign .colon) := by
  intro hpeek
  obtain ⟨s, us, rfl⟩ := Tokens.of_peek hpeek
  obtain ⟨p, hp, -⟩ := h
  rw [members, if_neg nofun] at hp
  cases hp

/-- A definition begins with one of three words, and nothing else does. -/
theorem statement_eq_box {ts : Tokens} {w : List Token} (hmods : AnyModifiers w) {rest : Tokens}
    (h : Stands w ts rest) (hrest : rest.peek = some (.keyword .refbox)) :
    statement size minus ts = boxDeclaration size minus ts := by
  have hpeek := h.peek
  rw [hrest] at hpeek
  cases w with
  | nil =>
    obtain ⟨s, us, rfl⟩ := Tokens.of_peek hpeek
    rw [statement]
  | cons t w =>
    obtain ⟨s, us, rfl⟩ := Tokens.of_peek hpeek
    rcases hmods t (List.mem_cons_self ..) with rfl | rfl <;> rw [statement]

/-- Modifiers, a name, perhaps a base, and members are the declaration of a box. -/
theorem parses_box {name : String} {base : Option String} {ms : Members} (hmods : AnyModifiers w)
    (hmembers : Parses size minus (.members ms) w' next) :
    Parses size minus
      (.statement (.box ⟨name, base, .keyword .abstract ∈ w, .keyword .const ∈ w,
        ms.fields, ms.methods⟩))
      (w ++ .keyword .refbox :: .ident name :: (baseWords base ++ w')) next := by
  intro ts rest hw hrest
  obtain ⟨us, hw₁, hw₂⟩ := hw.append
  obtain ⟨s, vs, rfl, hw₃⟩ := hw₂.cons
  obtain ⟨s', xs, rfl, hw₄⟩ := hw₃.cons
  obtain ⟨ys, hw₅, hw₆⟩ := hw₄.append
  have hfound : Gives (members size minus ys) (·.Is ms rest) := hmembers ys rest hw₆ hrest
  show Gives (statement size minus _) _
  rw [statement_eq_box hmods hw₁ rfl, boxDeclaration]
  obtain ⟨_, hflags⟩ := (modifiers_is hmods hw₁ rfl false false).eq
  rw [hflags]
  dsimp only [Bool.false_or]
  refine (gives_expect (.keyword .refbox) s _).next fun _ => ?_
  refine (gives_expectName .boxName name s' xs).next fun _ => ?_
  dsimp only
  cases base with
  | some base =>
    obtain ⟨s₁, xs₁, rfl, hw₇⟩ := hw₅.cons
    obtain ⟨s₂, rfl⟩ := hw₇.one
    rw [accept_here]
    refine (gives_expectName .baseName base s₂ ys).next fun _ => ?_
    exact hfound.next fun _ => gives_pure ⟨rfl, rfl⟩
  | none =>
    obtain rfl := hw₅.nil
    rw [accept_missing (colon_not_member hfound)]
    exact hfound.next fun _ => gives_pure ⟨rfl, rfl⟩

end Rules

/-! ## All phrases -/

theorem parses_of_derives {ph : Phrase} {w : List Token} {next : Option Token}
    (h : Derives minus AnyModifiers ph w next) : Parses size minus ph w next := by
  -- one case for each clause of the grammar; a side condition there is what keeps the parser from
  -- going on here
  induction h with
  | minus _ hnode ih => exact hnode ▸ parses_minus ih
  | unary _ hends ih =>
    intro ts rest hw hrest
    subst hrest
    exact ih ts rest hw rfl (gives_applied_end hends)
  | tier _ hends ih =>
    intro ts rest hw hrest
    subst hrest
    exact ih ts rest hw rfl (gives_operators_end hends)
  | operand ht _ ih => exact parses_operand ht ih
  | operator _ hop _ ihl ihr => exact parses_operator ihl hop ihr
  | applied _ ih => exact parses_applied ih
  | index _ _ iht ihp => exact parses_index iht ihp
  | extension _ _ iht iha => exact parses_extension iht iha
  | field _ hends ih => exact parses_field ih hends
  | method _ _ hcall iht iha => exact parses_method iht iha hcall
  | noArgs hends =>
    intro ts rest hw hrest
    obtain rfl := hw.nil
    exact gives_noArgs (hrest ▸ hends)
  | args _ ih => exact parses_args ih
  | noItems => exact parses_noItems
  | items _ ih => exact parses_items ih
  | lastItem _ ih => exact parses_lastItem ih
  | moreItems _ _ ih ihmore => exact parses_moreItems ih ihmore
  | int n =>
    intro ts rest hw hrest
    obtain ⟨s, rfl⟩ := hw.one
    show Gives (primary size minus _) _
    rw [primary]
    exact ⟨_, rfl, rfl, rfl⟩
  | str text =>
    intro ts rest hw hrest
    obtain ⟨s, rfl⟩ := hw.one
    show Gives (primary size minus _) _
    rw [primary]
    exact ⟨_, rfl, rfl, rfl⟩
  | input =>
    intro ts rest hw hrest
    obtain ⟨s, rfl⟩ := hw.one
    show Gives (primary size minus _) _
    rw [primary]
    exact ⟨_, rfl, rfl, rfl⟩
  | var name hends => exact parses_var name hends
  | call name _ ih => exact parses_call name ih
  | parens _ ih => exact parses_parens ih
  | array _ ih => exact parses_array ih
  | create box => exact parses_create box
  | reader hk _ hnode ih => exact hnode ▸ parses_reader hk ih
  | function _ ih => exact parses_function ih
  | giveBackNone => exact parses_giveBackNone
  | command hk _ hnode ih => exact hnode ▸ parses_command hk ih
  | ifThen _ _ ihc ihy => exact parses_ifThen ihc ihy
  | ifElse _ _ _ ihc ihy ihn => exact parses_ifElse ihc ihy ihn
  | whileDo _ _ ihc ihb => exact parses_whileDo ihc ihb
  | forDo _ _ _ _ ihi ihc ihs ihb => exact parses_forDo ihi ihc ihs ihb
  | extend _ _ _ _ ihk ihb ihf iha => exact parses_extend ihk ihb ihf iha
  | box hmods _ ih => exact parses_box hmods ih
  | assign _ ih => exact parses_assign ih
  | setField _ ih => exact parses_setField ih
  | expression _ hends ih => exact parses_expression ih hends
  | noStatements => exact parses_noStatements
  | statements _ _ ihf ihs => exact parses_statements ihf ihs
  | routine _ ih => exact parses_routine ih
  | bodyEnd => exact parses_bodyEnd
  | bodyReturn _ ih => exact parses_bodyReturn ih
  | body _ hgoesOn _ ihf ihb => exact parses_body ihf hgoesOn ihb
  | noMembers => exact parses_noMembers
  | memberField ha _ _ ihi ihm => exact parses_memberField ha ihi ihm
  | memberFunction ha _ _ ihr ihm => exact parses_memberFunction ha ihr ihm
  | memberAbstract ha _ ih => exact parses_memberAbstract ha ih

/-- An expression before any other token begins no assignment. -/
theorem startsAssignment_expr {node : Node} {w : List Token} {next : Option Token}
    (h : Derives minus AnyModifiers (.expr node) w next) (hnext : next ≠ some (.sign .eq)) :
    startsAssignment (w ++ next.toList) = false := by
  -- in a source with just these tokens
  let place (us : List Token) : Tokens := us.map (·, .point 0)
  have hplace : ∀ us, (place us).words = us := fun us => by
    simp [place, Tokens.words, Function.comp_def]
  have hpeek : (place next.toList).peek = next := by cases next <;> rfl
  have hw : Stands w (place (w ++ next.toList)) (place next.toList) :=
    ⟨place w, hplace w, List.map_append⟩
  have hexpr : Gives (tier 0 minus .logic _) _ := parses_of_derives h _ _ hw hpeek
  refine Bool.eq_false_iff.2 fun hstarts => hnext ?_
  rw [← hplace (w ++ next.toList)] at hstarts
  exact hpeek ▸ (expr_before_sign hw hexpr hstarts).1

theorem statements_of_derives {ts : Tokens} {program : Program}
    (h : Derives minus AnyModifiers (.block program) ts.words none) :
    statements size minus ts = .ok program :=
  (parses_of_derives h ts [] ⟨ts, rfl, (List.append_nil ts).symm⟩ rfl).2 rfl

/-- **The tokens are read as a program where they are a derivation of it**, and nowhere else: every
token has its place in the derivation, and every part of the tree stands for tokens in a row. -/
theorem statements_iff_derives {ts : Tokens} {program : Program} :
    statements size negated ts = .ok program ↔
      Derives negated AnyModifiers (.block program) ts.words none :=
  ⟨derives_of_statements, statements_of_derives⟩

/-! ## The words before a box -/

theorem anyModifiers_of_plain {w : List Token} (h : PlainModifiers w) : AnyModifiers w := by
  simp only [PlainModifiers, List.mem_cons, List.not_mem_nil, or_false] at h
  rcases h with rfl | rfl | rfl | rfl <;> simp [AnyModifiers]

/-- What begins with `const` is a box with the words before it. -/
theorem modifiers_of_derives {node : Node} {w : List Token} {next : Option Token}
    (h : Derives minus PlainModifiers (.statement node) w next)
    (hconst : w.head? = some (.keyword .const)) :
    ∃ v w', PlainModifiers v ∧ w = v ++ .keyword .refbox :: w' := by
  cases h with
  | box hmods _ => exact ⟨_, _, hmods, rfl⟩
  | expression h _ =>
    obtain ⟨u, hu, hstarts⟩ := h.begins fun _ => anyModifiers_of_plain
    rw [hconst] at hu
    cases hu
    cases hstarts
  | command hk _ _ =>
    cases hconst
    cases hk
  | _ => cases hconst

/-- `const const refbox A end` -/
def constTwice : Tokens :=
  [(.keyword .const, ⟨0, 5⟩), (.keyword .const, ⟨6, 11⟩), (.keyword .refbox, ⟨12, 18⟩),
    (.ident "A", ⟨19, 20⟩), (.keyword .endBlock, ⟨21, 24⟩)]

/-- The words before a box may come twice, which is more than `[const] [abstract]` says. -/
theorem constTwice_read : ∃ program, statements 24 negated constTwice = .ok program ∧
    ¬ Derives negated PlainModifiers (.block program) constTwice.words none := by
  refine ⟨[.box ⟨"A", none, false, true, [], []⟩], statements_of_derives ?_, fun h => ?_⟩
  · have hmods : AnyModifiers [.keyword .const, .keyword .const] := by simp [AnyModifiers]
    have hbox : Derives negated AnyModifiers (.statement (.box ⟨"A", none, false, true, [], []⟩))
        constTwice.words none := .box hmods .noMembers
    exact .statements hbox .noStatements
  · generalize hw : constTwice.words = w at h
    cases h with
    | statements hfirst hfurther =>
      cases hfurther
      rw [List.append_nil] at hw
      subst hw
      obtain ⟨v, w', hplain, hw⟩ := modifiers_of_derives hfirst rfl
      simp only [PlainModifiers, List.mem_cons, List.not_mem_nil, or_false] at hplain
      rcases hplain with rfl | rfl | rfl | rfl <;> cases hw

end BoxScript
