import BoxScript.Proofs.Printing

/-!
# What is printed is read back

Printing a tree that has been read and reading what is printed gives the tree again. The induction
is on the derivation of the tree: for every phrase in it there is a derivation of the printed
phrase, before any token that ends it. Where the tree has parentheses that printing leaves out, the
printed phrase is put together without them.
-/

namespace BoxScript

/-- The derivations of what the parser reads. -/
abbrev Reads : Phrase → List Token → Option Token → Prop := Derives negated AnyModifiers

/-! ## Where expressions end -/

/-- The tokens before which every expression ends. -/
def Token.separates : Token → Bool
  | .sign s => s ∈ [.rParen, .rBracket, .comma, .semi]
  | _ => true

/-- A phrase of that looseness ends here: no operator that is tighter goes on with it, and nothing
is applied to it. -/
def Stops (k : Nat) (next : Option Token) : Prop :=
  ∀ u ∈ next, u ≠ .sign .lParen ∧ (0 < k → u.applies = false) ∧
    ∀ t : Tier, t.rank < k → t.op? u = none

/-- Every expression ends here. -/
def Separates (next : Option Token) : Prop := ∀ u ∈ next, u.separates = true

/-- Where a phrase ends, every tighter one does. -/
theorem Stops.mono {k k' : Nat} {next : Option Token} (h : Stops k next) (hle : k' ≤ k) :
    Stops k' next := fun u hu =>
  ⟨(h u hu).1, fun hk => (h u hu).2.1 (by omega), fun t ht => (h u hu).2.2 t (by omega)⟩

/-- All expressions end before such a token, however loose they are. -/
theorem stops_of_separates {next : Option Token} (h : Separates next) (k : Nat) :
    Stops k next := by
  intro u hu
  have hu := h u hu
  refine ⟨?_, fun _ => ?_, fun t _ => ?_⟩
  · rintro rfl
    cases hu
  · cases u with
    | sign s => cases s <;> first | rfl | cases hu
    | _ => rfl
  · cases u with
    | sign s => cases s <;> first | (cases t <;> rfl) | cases hu
    | _ => cases t <;> rfl

/-- The operands of an operator that are tighter than it end before it. -/
theorem stops_operator (op : BinOp) : Stops op.tier.rank (some (.sign op.sign)) := by
  rintro _ ⟨⟩
  refine ⟨by cases op <;> nofun, fun _ => by cases op <;> rfl, fun t ht => ?_⟩
  cases op <;> cases t <;> first | rfl | exact absurd ht (by decide)

/-- A bracket, a colon or a dot ends a phrase of the tightest kind. -/
theorem stops_applying {u : Token} (h : u.applies = true) : Stops 0 (some u) := by
  rintro _ ⟨⟩
  refine ⟨?_, nofun, nofun⟩
  rintro rfl
  cases h

theorem Stops.not_paren {next : Option Token} (h : Stops 0 next) : next ≠ some (.sign .lParen) := by
  rintro rfl
  exact (h _ rfl).1 rfl

/-- Before such a token an expression is not the left side of an assignment. -/
theorem separates_eq {next : Option Token} (h : Separates next) : next ≠ some (.sign .eq) := by
  rintro rfl
  cases h _ rfl

/-- An expression ends before a statement that does not go on with it. -/
theorem separates_of_statement {u : Token} (hstarts : u.startsStatement = true)
    (hopens : u.opens = false) : u.separates = true := by
  cases u with
  | sign s =>
    cases s <;> first
      | rfl
      | exact absurd hstarts (by decide)
      | exact absurd hopens (by decide)
  | _ => rfl

theorem Tier.rank_tighter {t : Tier} (h : t ≠ .unary) : t.tighter.rank + 1 = t.rank := by
  cases t <;> first | rfl | exact absurd rfl h

theorem Tier.rank_pos {t : Tier} (h : t ≠ .unary) : 0 < t.rank := by
  cases t <;> first | exact Nat.succ_pos _ | exact absurd rfl h

theorem Tier.eq_of_rank {t t' : Tier} (h : t.rank = t'.rank) : t = t' := by
  cases t <;> cases t' <;> first | rfl | cases h

/-- The phrase ends before that token, whatever it is made of. -/
def Phrase.Ends : Phrase → Option Token → Prop
  | .tier t _, next => Stops (t.rank + 1) next
  | .operands t _, next => Stops t.rank next
  | .applied _, next | .primary _, next | .optionalArgs _, next => Stops 0 next
  | .items .., _ | .moreItems .., _ => True
  | _, next => Separates next

theorem ends_of_separates {next : Option Token} (h : Separates next) (ph : Phrase) :
    ph.Ends next := by
  cases ph with
  | tier | operands | applied | primary | optionalArgs => exact stops_of_separates h _
  | items | moreItems => trivial
  | _ => exact h

/-- A phrase is the same before every token that it ends before. -/
theorem Derives.before {ph : Phrase} {w : List Token} {next next' : Option Token}
    (h : Reads ph w next) (hnext : ph.Ends next') : Reads ph w next' := by
  -- before the rest of a row of phrases nothing changes, unless there is no rest
  have hahead : ∀ {ph : Phrase} {w w' : List Token} {next : Option Token},
      Reads ph w (ahead w' next) → Reads ph w next' → Reads ph w (ahead w' next') := by
    intro ph w w' next h ih
    cases w' with
    | nil => exact ih
    | cons t w' => exact h
  -- by the derivation: only the last part of a phrase sees what follows, and it ends there since
  -- the whole phrase does
  induction h with
  | minus _ hnode ih => exact .minus (ih hnext) hnode
  | unary _ _ ih =>
    exact .unary (ih (Stops.mono hnext (Nat.zero_le 1))) fun u hu => (hnext u hu).2.1 Nat.one_pos
  | @tier t _ _ _ _ _ ih =>
    exact .tier (ih (Stops.mono hnext (Nat.le_succ _))) fun u hu =>
      (hnext u hu).2.2 t (Nat.lt_succ_self _)
  | operand ht _ ih => exact .operand ht (ih (by rwa [Phrase.Ends, Tier.rank_tighter ht]))
  | operator hleft hop _ _ ihr =>
    refine .operator hleft hop (ihr ?_)
    rw [(BinOp.of_op? hop).1] at hnext ⊢
    rwa [Phrase.Ends, Tier.rank_tighter (BinOp.tier_ne_unary _)]
  | applied _ ih => exact .applied (ih hnext)
  | index htarget hposition => exact .index htarget hposition
  | extension htarget _ _ ih => exact .extension htarget (ih hnext)
  | field hholder _ _ => exact .field hholder (Stops.not_paren hnext)
  | method htarget _ hcall _ ih => exact .method htarget (ih trivial) hcall
  | noArgs => exact .noArgs (Stops.not_paren hnext)
  | args _ ih => exact .args (ih trivial)
  | noItems => exact .noItems
  | items _ ih => exact .items (ih trivial)
  | lastItem h => exact .lastItem h
  | moreItems h _ _ ih => exact .moreItems h (ih trivial)
  | int n => exact .int n
  | str text => exact .str text
  | var name => exact .var name (Stops.not_paren hnext)
  | call name _ ih => exact .call name (ih trivial)
  | parens h => exact .parens h
  | array _ ih => exact .array (ih trivial)
  | create box => exact .create box
  | input => exact .input
  | reader hk h hnode => exact .reader hk h hnode
  | function _ ih => exact .function (ih hnext)
  | giveBackNone => exact .giveBackNone
  | command hk _ hnode ih => exact .command hk (ih (stops_of_separates hnext _)) hnode
  | ifThen hcondition hyes => exact .ifThen hcondition hyes
  | ifElse hcondition hyes hno => exact .ifElse hcondition hyes hno
  | whileDo hcondition hbody => exact .whileDo hcondition hbody
  | forDo hinit hcondition hincrement hbody =>
    exact .forDo hinit hcondition hincrement hbody
  | extend hkind hbox hfunction harity => exact .extend hkind hbox hfunction harity
  | box hmods _ ih => exact .box hmods (ih hnext)
  | assign _ ih => exact .assign (ih (stops_of_separates hnext _))
  | setField _ ih => exact .setField (ih (stops_of_separates hnext _))
  | expression _ _ ih =>
    have hexpr := ih (stops_of_separates hnext _)
    exact .expression hexpr (startsAssignment_expr hexpr (separates_eq hnext))
  | noStatements => exact .noStatements
  | statements hfirst _ ihf ihs => exact .statements (hahead hfirst (ihf hnext)) (ihs hnext)
  | routine _ ih => exact .routine (ih hnext)
  | bodyEnd => exact .bodyEnd
  | bodyReturn _ ih => exact .bodyReturn (ih hnext)
  | body hfirst hgoesOn _ ihf ihb => exact .body (hahead hfirst (ihf hnext)) hgoesOn (ihb hnext)
  | noMembers => exact .noMembers
  | memberField ha hinit _ ihi ihm =>
    exact .memberField ha (hahead hinit (ihi (stops_of_separates hnext _))) (ihm hnext)
  | memberFunction ha hroutine _ ihr ihm =>
    exact .memberFunction ha (hahead hroutine (ihr hnext)) (ihm hnext)
  | memberAbstract ha _ ih => exact .memberAbstract ha (ih hnext)

/-! ## Printed expressions -/

/-- The tokens `w` are the tree as an expression of looseness `k`, wherever such an expression
ends. -/
structure Fits (k : Nat) (node : Node) (w : List Token) : Prop where
  applied : k = 0 → ∀ {next}, Stops 0 next → Reads (.applied node) w next
  unary : k ≤ 1 → ∀ {next}, Stops 1 next → Reads (.tier .unary node) w next
  operands : ∀ {t : Tier}, t ≠ .unary → k ≤ t.rank + 1 → ∀ {next}, Stops t.rank next →
    Reads (.operands t node) w next

section Fits

variable {k : Nat} {node : Node} {w : List Token} {next : Option Token}

/-- A tree that fits may stand where looser ones may. -/
theorem Fits.mono (h : Fits k node w) {k' : Nat} (hle : k ≤ k') : Fits k' node w where
  applied hk := h.applied (by omega)
  unary hk := h.unary (by omega)
  operands ht hk := h.operands ht (by omega)

/-- An expression of a tier is one of the looser tiers. -/
theorem operands_of_tighter {t : Tier}
    (h : ∀ {next}, Stops (t.rank + 1) next → Reads (.tier t node) w next) {t' : Tier}
    (hlt : t.rank < t'.rank) {next : Option Token} (hnext : Stops t'.rank next) :
    Reads (.operands t' node) w next := by
  induction hn : t'.rank using Nat.strongRecOn generalizing t' next with
  | ind n ih =>
    subst hn
    have ht' : t' ≠ .unary := by
      rintro rfl
      exact absurd hlt (Nat.not_lt_zero _)
    have hrank := Tier.rank_tighter ht'
    refine .operand ht' ?_
    rcases Nat.lt_or_ge t.rank t'.tighter.rank with htighter | hlast
    · have hoperands := ih _ (by omega) htighter (hnext.mono (by omega)) rfl
      exact .tier hoperands fun u hu => (hnext u hu).2.2 _ (by omega)
    · obtain rfl := Tier.eq_of_rank (show t.rank = t'.tighter.rank by omega)
      exact h (by rwa [hrank])

theorem fits_of_unary (h : ∀ {next}, Stops 1 next → Reads (.tier .unary node) w next) :
    Fits 1 node w where
  applied hk := absurd hk Nat.one_ne_zero
  unary _ := h
  operands ht _ := operands_of_tighter (t := .unary) h (Tier.rank_pos ht)

theorem fits_of_applied (h : ∀ {next}, Stops 0 next → Reads (.applied node) w next) :
    Fits 0 node w :=
  have hunary : ∀ {next}, Stops 1 next → Reads (.tier .unary node) w next := fun hnext =>
    .unary (h (hnext.mono (Nat.zero_le 1))) fun u hu => (hnext u hu).2.1 Nat.one_pos
  { applied := fun _ => h
    unary := fun _ => hunary
    operands := fun ht _ => operands_of_tighter (t := .unary) hunary (Tier.rank_pos ht) }

theorem fits_of_operands {t : Tier} (ht : t ≠ .unary)
    (h : ∀ {next}, Stops t.rank next → Reads (.operands t node) w next) :
    Fits (t.rank + 1) node w where
  applied hk := absurd hk (Nat.succ_ne_zero _)
  unary hk := absurd (Tier.rank_pos ht) (by omega)
  operands {t'} _ hk _ hnext := by
    rcases Nat.lt_or_eq_of_le (Nat.le_of_succ_le_succ hk) with hlt | heq
    · refine operands_of_tighter (fun hnext => ?_) hlt hnext
      exact .tier (h (hnext.mono (Nat.le_succ _))) fun u hu =>
        (hnext u hu).2.2 t (Nat.lt_succ_self _)
    · obtain rfl := Tier.eq_of_rank heq
      exact h hnext

theorem Fits.tier {t : Tier} (h : Fits k node w) (hk : k ≤ t.rank + 1)
    (hnext : Stops (t.rank + 1) next) : Reads (.tier t node) w next := by
  by_cases ht : t = .unary
  · subst ht
    exact h.unary hk hnext
  · refine .tier (h.operands ht hk (hnext.mono (Nat.le_succ _))) fun u hu => ?_
    exact (hnext u hu).2.2 t (Nat.lt_succ_self _)

/-- No tree is looser than the operators of the loosest tier. -/
theorem Node.looseness_le (node : Node) : node.looseness ≤ 5 := by
  unfold Node.looseness
  split
  · split <;> omega
  · omega
  · next op _ _ => cases op <;> decide
  · omega

/-- The tree is an expression, and its printed tokens are. -/
def Expressible (node : Node) : Prop := Fits node.looseness node node.words

theorem Expressible.expr (h : Expressible node) (hnext : Separates next) :
    Reads (.expr node) node.words next :=
  Fits.tier h node.looseness_le (stops_of_separates hnext _)

/-- In parentheses where it has to be, an expression fits. -/
theorem Expressible.wrapped (h : Expressible node) (k : Nat) :
    Fits k node (wrapped k node node.words) := by
  unfold BoxScript.wrapped
  split
  · next hle => exact Fits.mono h hle
  · refine Fits.mono (fits_of_applied fun _ => .applied (.parens (h.expr ?_))) (Nat.zero_le k)
    rintro _ ⟨⟩
    rfl

end Fits

attribute [local simp] Node.words chainWords

/-- A negative integer is printed with a sign, so it stands where signs may. -/
theorem expressible_int (n : Int64) : Expressible (.int n) := by
  show Fits (if n < 0 then 1 else 0) _ _
  rw [Node.words]
  by_cases hn : n < 0
  · rw [if_pos hn, if_pos hn]
    refine fits_of_unary fun hnext => .minus (.unary (.applied (.int (-n))) ?_) ?_
    · exact fun u hu => (hnext u hu).2.1 Nat.one_pos
    · rw [negated, Int64.neg_neg]
  · rw [if_neg hn, if_neg hn]
    exact fits_of_applied fun _ => .applied (.int n)

/-- A minus sign makes of an integer an integer, and of anything else an expression with the
sign. -/
theorem expressible_negated {operand : Node} (h : Expressible operand) :
    Expressible (negated operand) := by
  unfold negated
  split
  · exact expressible_int _
  · next hint =>
    show Fits 1 _ _
    rw [Node.words]
    refine fits_of_unary fun hnext => .minus ((h.wrapped 1).unary (Nat.le_refl _) hnext) ?_
    unfold negated
    split
    · exact absurd rfl (hint _)
    · rfl

/-- The right operand has to be tighter than the operator, the left one not. -/
theorem expressible_binary (op : BinOp) {left right : Node} (hleft : Expressible left)
    (hright : Expressible right) : Expressible (.binary op left right) := by
  have ht := op.tier_ne_unary
  have hrank := Tier.rank_tighter ht
  show Fits (op.tier.rank + 1) _ _
  rw [Node.words]
  refine fits_of_operands ht fun hnext => .operator ?_ op.op?_sign ?_
  · exact (hleft.wrapped _).operands ht (Nat.le_refl _) (stops_operator op)
  · exact (hright.wrapped _).tier (by omega) (by rwa [hrank])

/-- A tree without operators is an expression if it is one that more can be applied to. -/
theorem expressible_of_applied {node : Node} (htight : node.looseness = 0)
    (h : ∀ {next}, Stops 0 next → Reads (.applied node) node.words next) : Expressible node := by
  unfold Expressible
  rw [htight]
  exact fits_of_applied h

theorem expressible_of_primary {node : Node} (htight : node.looseness = 0)
    (h : ∀ {next}, Stops 0 next → Reads (.primary node) node.words next) : Expressible node :=
  expressible_of_applied htight fun hnext => .applied (h hnext)

/-- Before something that is applied to it, an expression is wrapped unless it is tight. -/
theorem Expressible.target {target : Node} (h : Expressible target) {u : Token}
    (hu : u.applies = true) :
    Reads (.applied target) (BoxScript.wrapped 0 target target.words) (some u) :=
  (h.wrapped 0).applied rfl (stops_applying hu)

theorem reads_items {close : Sign} (hclose : (Token.sign close).separates = true)
    {nodes : List Node} (h : ∀ node ∈ nodes, Expressible node) (next : Option Token) :
    Reads (.items close nodes) (itemWords close nodes) next := by
  have hseparates : ∀ {s : Sign}, (Token.sign s).separates = true → Separates (some (.sign s)) := by
    rintro s hs _ ⟨⟩
    exact hs
  cases nodes with
  | nil =>
    rw [itemWords]
    exact .noItems
  | cons node nodes =>
    refine .items ?_
    induction nodes generalizing node with
    | nil =>
      rw [itemWords]
      exact .lastItem ((h node (List.mem_cons_self ..)).expr (hseparates hclose))
    | cons node' nodes ih =>
      rw [itemWords]
      refine .moreItems ((h node (List.mem_cons_self ..)).expr (hseparates rfl)) (ih node' ?_)
      exact fun a ha => h a (List.mem_cons_of_mem node ha)

/-- The words of a chain are those of its calls in a row. -/
theorem chainWords_append (calls : List Invocation) (call : Invocation) :
    chainWords (calls ++ [call]) = chainWords calls ++ call.words := by
  induction calls with
  | nil => simp
  | cons first calls ih => rw [List.cons_append, chainWords, chainWords, ih, List.append_assoc]

/-- A call of a member is printed behind what it is on, which needs no parentheses. -/
theorem called_words {target node : Node} {call : Invocation}
    (h : target.called? call = some node) : target.looseness = 0 ∧ node.looseness = 0 ∧
      node.words = target.words ++ call.words := by
  unfold Node.called? at h
  split at h <;> cases h <;>
    simp [Node.looseness, Receiver.words, chainWords_append]

/-! ## Printed statements -/

variable {next : Option Token}

theorem separates_some {u : Token} (h : u.separates = true) : Separates (some u) := by
  rintro _ ⟨⟩
  exact h

theorem Node.words_ne_nil (node : Node) : node.words ≠ [] := by
  cases node with
  | int n =>
    rw [Node.words]
    split <;> nofun
  | method receiver first further =>
    rw [Node.words]
    cases receiver <;> nofun
  | box declaration =>
    obtain ⟨name, base, isAbstract, isConst, fields, methods⟩ := declaration
    rw [Node.words, BoxDecl.words]
    exact List.append_ne_nil_of_right_ne_nil _ nofun
  | binary | index | extension =>
    rw [Node.words]
    exact List.append_ne_nil_of_right_ne_nil _ nofun
  | _ =>
    rw [Node.words]
    nofun

/-- Where a statement stands that does not go on with an expression, expressions end. -/
theorem separates_first {node : Node} {w : List Token}
    (hopens : ∀ u ∈ node.words.head?, u.opens = false)
    (hbegins : ∃ u ∈ (node.words ++ w).head?, u.startsStatement = true ∨ u = .keyword .endBlock) :
    Separates (ahead (node.words ++ w) next) := by
  obtain ⟨u, hu, hstarts⟩ := hbegins
  obtain ⟨t, w', hwords⟩ := List.exists_cons_of_ne_nil node.words_ne_nil
  rw [hwords] at hu hopens ⊢
  cases hu
  refine separates_some ?_
  rcases hstarts with hstarts | rfl
  · exact separates_of_statement hstarts (hopens _ rfl)
  · rfl

/-- The tree is a statement, and its printed tokens are where what follows does not go on with
it. -/
def Stateable (node : Node) : Prop :=
  (∀ row ∈ node.rows, Clear row.1 row.2) → ∀ {next}, Separates next →
    Reads (.statement node) node.words next

/-- The function of a box can be printed. -/
def MethodDecl.Printed (method : MethodDecl) : Prop :=
  if method.isAbstract then method.routine.body = []
  else Clear true method.routine.body → ∀ {next}, Separates next →
    Reads (.routine method.routine) method.routine.words next

/-- What is printed for a phrase is a phrase again. -/
def Phrase.Printed : Phrase → Prop
  | .tier _ node | .operands _ node | .applied node | .primary node => Expressible node
  | .optionalArgs args => ∀ node ∈ args.getD [], Expressible node
  | .items _ nodes | .moreItems _ nodes => ∀ node ∈ nodes, Expressible node
  | .statement node => Stateable node
  | .block nodes => ∀ {free}, Clear free nodes → ∀ {next}, Separates next →
    Reads (.block nodes) (blockWords nodes) next
  | .routine r => Clear true r.body → ∀ {next}, Separates next → Reads (.routine r) r.words next
  | .body nodes => ∀ {free}, Clear free nodes → ∀ {next}, Separates next →
    Reads (.body nodes) (bodyWords nodes) next
  | .members ms => (∀ field ∈ ms.fields, Expressible field.init) ∧
    ∀ method ∈ ms.methods, method.Printed

theorem Clear.inside {free : Bool} {node : Node} (h : Clear free [node]) :
    ∀ row ∈ node.rows, Clear row.1 row.2 := by
  cases h with
  | cons _ hrows _ => exact hrows

theorem bodyWords_return (value : Option Node) :
    bodyWords [.giveBack value] = (Node.giveBack value).words := by
  rw [bodyWords]
  exact List.append_nil _

theorem bodyWords_cons {first : Node} {further : List Node}
    (hgoesOn : ∀ value, first ≠ .giveBack value) :
    bodyWords (first :: further) = first.words ++ bodyWords further := by
  have hreturn : first.isReturn = false := by
    unfold Node.isReturn
    split
    · exact absurd rfl (hgoesOn _)
    · rfl
  rw [bodyWords, hreturn]
  rfl

/-- Expressions end before a block that does not go on with them. -/
theorem separates_block {nodes : List Node} (hclear : Clear false nodes)
    (h : Reads (.block nodes) (blockWords nodes) next) (hnext : Separates next) :
    Separates (ahead (blockWords nodes) next) := by
  cases hclear with
  | nil => exact hnext
  | cons hopens _ _ =>
    obtain ⟨u, hu, hstarts⟩ := h.begins fun _ => id
    rw [blockWords] at hu ⊢
    exact separates_first (by simpa using hopens) ⟨u, hu, .inl hstarts⟩

/-- In a body as well, what comes first does not go on with an expression. -/
theorem separates_body {nodes : List Node} (hclear : Clear false nodes)
    (h : Reads (.body nodes) (bodyWords nodes) next) :
    Separates (ahead (bodyWords nodes) next) := by
  have hbegins := h.begins fun _ => id
  cases hclear with
  | nil =>
    rw [bodyWords]
    exact separates_some rfl
  | cons hopens _ _ =>
    rw [bodyWords] at hbegins ⊢
    exact separates_first (by simpa using hopens) hbegins

/-- A statement with one expression is printed as its word and the expression. -/
theorem stateable_command {k : Keyword} {f : Node → Node} {value : Node} (hk : k.command? = some f)
    (h : Expressible value) : Stateable (f value) := by
  intro _ next hnext
  have hvalue := h.expr hnext
  unfold Keyword.command? at hk
  split at hk <;> cases hk <;> rw [Node.words]
  · rw [resultWords]
    exact .command (k := .giveBack) rfl hvalue rfl
  · exact .command (k := .print) rfl hvalue rfl
  · exact .command (k := .printInline) rfl hvalue rfl
  · exact .command (k := .raise) rfl hvalue rfl
  · exact .command (k := .importScript) rfl hvalue rfl

/-- A reader is printed with its path behind it, where nothing goes on with it. -/
theorem expressible_reader {k : Keyword} {f : Node → Node} {path : Node} (hk : k.reader? = some f)
    (h : Expressible path) : Expressible (f path) := by
  have hpath {next} : Separates next → Reads (.expr path) path.words next := h.expr
  unfold Keyword.reader? at hk
  split at hk <;> cases hk <;> refine expressible_of_primary rfl fun _ => ?_ <;> rw [Node.words]
  · exact .reader (k := .readFile) rfl (hpath (separates_some rfl)) rfl
  · exact .reader (k := .readWholeFile) rfl (hpath (separates_some rfl)) rfl
  · exact .reader (k := .fileExists) rfl (hpath (separates_some rfl)) rfl

/-! ## Printed boxes -/

theorem accessWord_word (access : Access) : AccessWord access [access.word] := by
  cases access with
  | exposed => exact .exposed
  | guarded => exact .guarded

theorem separates_access {access : Access} {w : List Token} :
    Separates (ahead (access.word :: w) next) := separates_some (by cases access <;> rfl)

/-- Expressions end before the functions of a box, and before its end. -/
theorem separates_methods (methods : List MethodDecl) :
    Separates (ahead (methodWords methods ++ [.keyword .endBlock]) next) := by
  cases methods with
  | nil => exact separates_some rfl
  | cons method methods =>
    obtain ⟨routine, access, isAbstract⟩ := method
    rw [methodWords, MethodDecl.words]
    exact separates_access

theorem separates_fields (fields : List FieldDecl) (methods : List MethodDecl) :
    Separates
      (ahead (fieldWords fields ++ (methodWords methods ++ [.keyword .endBlock])) next) := by
  cases fields with
  | nil => exact separates_methods methods
  | cons field fields =>
    obtain ⟨name, init, access⟩ := field
    rw [fieldWords, FieldDecl.words]
    exact separates_access

/-- The functions of a box are printed one after the other, up to its end. -/
theorem reads_methods {methods : List MethodDecl} (h : ∀ m ∈ methods, m.Printed)
    (hclear : ∀ m ∈ methods, Clear true m.routine.body) (next : Option Token) :
    Reads (.members ⟨[], methods⟩) (methodWords methods ++ [.keyword .endBlock]) next := by
  induction methods with
  | nil => exact .noMembers
  | cons method methods ih =>
    obtain ⟨hfirst, hothers⟩ := List.forall_mem_cons.1 h
    obtain ⟨hbody, hbodies⟩ := List.forall_mem_cons.1 hclear
    have hfurther := ih hothers hbodies
    obtain ⟨⟨name, params, body⟩, access, isAbstract⟩ := method
    rw [methodWords, MethodDecl.words, List.append_assoc]
    cases isAbstract with
    | true =>
      obtain rfl : body = [] := hfirst
      exact .memberAbstract (accessWord_word access) hfurther
    | false =>
      have hends : Separates (ahead (methodWords methods ++ [.keyword .endBlock]) next) :=
        separates_methods methods
      exact .memberFunction (accessWord_word access) (hfirst hbody hends) hfurther

theorem reads_members {ms : Members} (h : (Phrase.members ms).Printed)
    (hclear : ∀ m ∈ ms.methods, Clear true m.routine.body) (next : Option Token) :
    Reads (.members ms)
      (fieldWords ms.fields ++ (methodWords ms.methods ++ [.keyword .endBlock])) next := by
  obtain ⟨fields, methods⟩ := ms
  obtain ⟨hfields, hmethods⟩ := h
  change ∀ m ∈ methods, _ at hclear
  induction fields with
  | nil => exact reads_methods hmethods hclear next
  | cons field fields ih =>
    obtain ⟨hinit, hothers⟩ := List.forall_mem_cons.1 hfields
    obtain ⟨name, init, access⟩ := field
    rw [fieldWords, FieldDecl.words, List.append_assoc]
    exact .memberField (accessWord_word access) (Expressible.expr hinit (separates_fields _ _))
      (ih hothers hmethods)

theorem const_mem_modifierWords (isConst isAbstract : Bool) :
    decide (.keyword .const ∈ modifierWords isConst isAbstract) = isConst := by
  cases isConst <;> cases isAbstract <;> rfl

theorem abstract_mem_modifierWords (isConst isAbstract : Bool) :
    decide (.keyword .abstract ∈ modifierWords isConst isAbstract) = isAbstract := by
  cases isConst <;> cases isAbstract <;> rfl

theorem anyModifiers_modifierWords (isConst isAbstract : Bool) :
    AnyModifiers (modifierWords isConst isAbstract) := by
  cases isConst <;> cases isAbstract <;> simp [modifierWords, AnyModifiers]

/-- A box is printed with its modifiers in one order, which is among the orders that are read. -/
theorem stateable_box (name : String) (base : Option String) (isAbstract isConst : Bool)
    {ms : Members} (h : (Phrase.members ms).Printed) :
    Stateable (.box ⟨name, base, isAbstract, isConst, ms.fields, ms.methods⟩) := by
  intro hrows next _
  have hclear : ∀ m ∈ ms.methods, Clear true m.routine.body :=
    fun m hm => hrows _ (List.mem_map_of_mem hm)
  have hbox : Reads (.statement (.box ⟨name, base, _, _, ms.fields, ms.methods⟩)) _ next :=
    .box (anyModifiers_modifierWords isConst isAbstract) (reads_members h hclear next)
  rw [const_mem_modifierWords, abstract_mem_modifierWords] at hbox
  exact hbox

/-! ## All phrases -/

/-- Whatever has been read can be printed: the printed tokens of a phrase are a phrase of the same
tree, wherever it may stand. -/
theorem printed_of_reads {ph : Phrase} {w : List Token} {next : Option Token}
    (h : Reads ph w next) : ph.Printed := by
  -- by the derivation of what was read; rules that leave no trace in the tree hand on what is below
  -- them
  induction h with
  | minus _ hnode ih => exact hnode ▸ expressible_negated ih
  | operator _ hop _ ihl ihr => exact expressible_binary _ ihl ihr
  | tier _ _ ih | unary _ _ ih | operand _ _ ih | applied _ ih | parens _ ih | items _ ih
  | args _ ih => exact ih
  -- what is applied stands behind its target, which is wrapped if it is loose
  | index _ _ iht ihp =>
    refine expressible_of_applied rfl fun _ => ?_
    rw [Node.words]
    exact .index (iht.target rfl) (ihp.expr (separates_some rfl))
  | @extension target name args _ _ _ _ _ iht iha =>
    refine expressible_of_applied rfl fun {next} _ => ?_
    rw [Node.words]
    have hargs : Reads (.optionalArgs (some (args.getD []))) _ next := .args (reads_items rfl iha _)
    have hextension : Reads (.applied (.extension target name _)) _ next :=
      .extension (iht.target rfl) hargs
    exact hextension
  | field _ _ ih =>
    refine expressible_of_applied rfl fun hnext => ?_
    exact .field (ih.target rfl) hnext.not_paren
  | method _ _ hcall iht iha =>
    obtain ⟨htarget, hnode, hwords⟩ := called_words hcall
    refine expressible_of_applied hnode fun _ => ?_
    rw [hwords, Invocation.words]
    exact .method (Fits.applied iht htarget (stops_applying rfl)) (reads_items rfl iha _) hcall
  | noArgs | noItems => exact fun _ hmem => absurd hmem (List.not_mem_nil)
  | lastItem _ ih => exact List.forall_mem_singleton.2 ih
  | moreItems _ _ ih ihmore => exact List.forall_mem_cons.2 ⟨ih, ihmore⟩
  | int n => exact expressible_int n
  | str text => exact expressible_of_primary rfl fun _ => .str text
  | var name _ => exact expressible_of_primary rfl fun hnext => .var name hnext.not_paren
  | create box => exact expressible_of_primary rfl fun _ => .create box
  | input => exact expressible_of_primary rfl fun _ => .input
  | call name _ ih =>
    exact expressible_of_primary rfl fun _ => .call name (reads_items rfl ih _)
  | array _ ih => exact expressible_of_primary rfl fun _ => .array (reads_items rfl ih _)
  | reader hk _ hnode ih => exact hnode ▸ expressible_reader hk ih
  | function _ ih =>
    exact fun hrows _ hnext => .function (ih (hrows _ (List.mem_singleton_self _)) hnext)
  | giveBackNone => exact fun _ _ _ => .giveBackNone
  | command hk _ hnode ih => exact hnode ▸ stateable_command hk ih
  -- the statements: the last expression before a block ends there, since the block is clear
  | ifThen _ _ ihc ihy =>
    intro hrows next hnext
    rw [Node.words, elseWords]
    have hclear := hrows _ (List.mem_cons_self ..)
    have hyes := ihy hclear (separates_some (u := .keyword .endBlock) rfl)
    exact .ifThen (ihc.expr (separates_block hclear hyes (separates_some rfl))) hyes
  | ifElse _ _ _ ihc ihy ihn =>
    intro hrows next hnext
    rw [Node.words, elseWords]
    have hclear := hrows _ (List.mem_cons_self ..)
    have hyes := ihy hclear (separates_some (u := .keyword .otherwise) rfl)
    have hno := ihn (hrows _ (List.mem_cons_of_mem _ (List.mem_cons_self ..)))
      (separates_some (u := .keyword .endBlock) rfl)
    exact .ifElse (ihc.expr (separates_block hclear hyes (separates_some rfl))) hyes hno
  | whileDo _ _ ihc ihb =>
    intro hrows next hnext
    rw [Node.words]
    have hclear := hrows _ (List.mem_cons_self ..)
    have hbody := ihb hclear (separates_some (u := .keyword .endBlock) rfl)
    exact .whileDo (ihc.expr (separates_block hclear hbody (separates_some rfl))) hbody
  | forDo _ _ _ _ ihi ihc ihs ihb =>
    intro hrows next hnext
    rw [Node.words]
    obtain ⟨hinit, hothers⟩ := List.forall_mem_cons.1 hrows
    obtain ⟨hincrement, hbody⟩ := List.forall_mem_cons.1 hothers
    have hclear := List.forall_mem_singleton.1 hbody
    have hblock := ihb hclear (separates_some (u := .keyword .endBlock) rfl)
    exact .forDo (ihi hinit.inside (separates_some rfl)) (ihc.expr (separates_some rfl))
      (ihs hincrement.inside (separates_block hclear hblock (separates_some rfl))) hblock
  | extend _ _ _ _ ihk ihb ihf iha =>
    intro _ next hnext
    rw [Node.words]
    exact .extend (ihk.expr (separates_some rfl)) (ihb.expr (separates_some rfl))
      (ihf.expr (separates_some rfl)) (iha.expr (separates_some rfl))
  | box _ _ ih => exact stateable_box _ _ _ _ ih
  | assign _ ih =>
    intro _ next hnext
    rw [Node.words]
    exact .assign (ih.expr hnext)
  | setField _ ih =>
    intro _ next hnext
    rw [Node.words]
    exact .setField (ih.expr hnext)
  | expression _ _ ih =>
    intro _ next hnext
    have hexpr := ih.expr hnext
    exact .expression hexpr (startsAssignment_expr hexpr (separates_eq hnext))
  | noStatements => exact fun _ _ _ => .noStatements
  -- blocks and bodies: a statement ends where the next one begins
  | statements _ _ ihf ihs =>
    intro free hclear next hnext
    cases hclear with
    | cons _ hrows hfurther =>
      have hothers := ihs hfurther hnext
      rw [blockWords]
      exact .statements (ihf hrows (separates_block hfurther hothers hnext)) hothers
  | routine _ ih =>
    intro hclear next hnext
    rw [Routine.words]
    exact .routine (ih hclear hnext)
  | bodyEnd => exact fun _ _ _ => .bodyEnd
  | bodyReturn _ ih =>
    intro free hclear next hnext
    rw [bodyWords_return]
    exact .bodyReturn (ih hclear.inside hnext)
  | body _ hgoesOn _ ihf ihb =>
    intro free hclear next hnext
    cases hclear with
    | cons _ hrows hfurther =>
      have hothers := ihb hfurther hnext
      rw [bodyWords_cons hgoesOn]
      exact .body (ihf hrows (separates_body hfurther hothers)) hgoesOn hothers
  | noMembers => exact ⟨nofun, nofun⟩
  | memberField _ _ _ ihi ihm => exact ⟨List.forall_mem_cons.2 ⟨ihi, ihm.1⟩, ihm.2⟩
  | memberFunction _ _ _ ihr ihm => exact ⟨ihm.1, List.forall_mem_cons.2 ⟨ihr, ihm.2⟩⟩
  | memberAbstract _ _ ih => exact ⟨ih.1, List.forall_mem_cons.2 ⟨rfl, ih.2⟩⟩

/-- **Printing and reading gives the program back**, where no statement goes on with an expression
before it. -/
theorem statements_printed {size size' : Nat} {ts ts' : Tokens} {program : Program}
    (hread : statements size negated ts = .ok program) (hclear : Clear true program)
    (hprinted : ts'.words = blockWords program) :
    statements size' negated ts' = .ok program := by
  refine statements_of_derives ?_
  rw [hprinted]
  exact printed_of_reads (derives_of_statements hread) hclear nofun

namespace Doubled

/-- `x = ((1 + 2)) * -3` -/
def source : Tokens :=
  [(.ident "x", ⟨0, 1⟩), (.sign .eq, ⟨2, 3⟩), (.sign .lParen, ⟨4, 5⟩), (.sign .lParen, ⟨5, 6⟩),
    (.int 1, ⟨6, 7⟩), (.sign .plus, ⟨8, 9⟩), (.int 2, ⟨10, 11⟩), (.sign .rParen, ⟨11, 12⟩),
    (.sign .rParen, ⟨12, 13⟩), (.sign .star, ⟨14, 15⟩), (.sign .minus, ⟨16, 17⟩),
    (.int 3, ⟨17, 18⟩)]

/-- The same with one pair of parentheses, `x=(1+2)*-3`. -/
def printed : Tokens :=
  [(.ident "x", ⟨0, 1⟩), (.sign .eq, ⟨1, 2⟩), (.sign .lParen, ⟨2, 3⟩), (.int 1, ⟨3, 4⟩),
    (.sign .plus, ⟨4, 5⟩), (.int 2, ⟨5, 6⟩), (.sign .rParen, ⟨6, 7⟩), (.sign .star, ⟨7, 8⟩),
    (.sign .minus, ⟨8, 9⟩), (.int 3, ⟨9, 10⟩)]

def program : Program :=
  [.assign "x" (.binary .mul (.binary .add (.int 1) (.int 2)) (.int (-3)))]

end Doubled

/-- Of two pairs of parentheses one is printed, and the tree is the same. -/
theorem statements_printed_doubled :
    statements 18 negated Doubled.source = .ok Doubled.program ∧ Clear true Doubled.program ∧
      Doubled.printed.words = blockWords Doubled.program ∧
      statements 10 negated Doubled.printed = .ok Doubled.program := by
  have hread : statements 18 negated Doubled.source = .ok Doubled.program := by cbv
  have hclear : Clear true Doubled.program := .cons (.inl rfl) (List.forall_mem_nil _) .nil
  have hprinted : Doubled.printed.words = blockWords Doubled.program := by cbv
  exact ⟨hread, hclear, hprinted, statements_printed hread hclear hprinted⟩

end BoxScript
