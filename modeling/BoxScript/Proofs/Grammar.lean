import BoxScript.Proofs.Code

/-!
# The grammar of programs

A node of the tree type can stand anywhere, but the parser builds no such trees: where it wants an
expression it reads an expression, and only statements hold statements. `IsExpr` and `IsStatement`
are the trees that it does build, and the lemmas below go through the parser function by function to
say so. Each takes for granted that all is well on fewer tokens, and the induction on the number of
tokens is done once, at the end.
-/

namespace BoxScript

/-- The trees of expressions. -/
inductive IsExpr : Node → Prop
  | int (n : Int64) : IsExpr (.int n)
  | str (s : String) : IsExpr (.str s)
  | var (name : String) : IsExpr (.var name)
  | input : IsExpr .input
  | create (box : String) : IsExpr (.create box)
  | field (holder field : String) : IsExpr (.field holder field)
  | negate {operand : Node} (h : IsExpr operand) : IsExpr (.negate operand)
  | binary (op : BinOp) {left right : Node} (hl : IsExpr left) (hr : IsExpr right) :
    IsExpr (.binary op left right)
  | index {target position : Node} (ht : IsExpr target) (hp : IsExpr position) :
    IsExpr (.index target position)
  | array {items : List Node} (h : ∀ a ∈ items, IsExpr a) : IsExpr (.array items)
  | call (name : String) {args : List Node} (h : ∀ a ∈ args, IsExpr a) : IsExpr (.call name args)
  | extension {target : Node} (name : String) {args : List Node} (ht : IsExpr target)
    (h : ∀ a ∈ args, IsExpr a) : IsExpr (.extension target name args)
  | method (receiver : Receiver) {first : Invocation} {further : List Invocation}
    (hfirst : ∀ a ∈ first.args, IsExpr a) (hfurther : ∀ c ∈ further, ∀ a ∈ c.args, IsExpr a) :
    IsExpr (.method receiver first further)
  | readLines {path : Node} (h : IsExpr path) : IsExpr (.readLines path)
  | readText {path : Node} (h : IsExpr path) : IsExpr (.readText path)
  | fileExists {path : Node} (h : IsExpr path) : IsExpr (.fileExists path)

/-- The trees of statements. -/
inductive IsStatement : Node → Prop
  | expr {node : Node} (h : IsExpr node) : IsStatement node
  | assign (name : String) {value : Node} (h : IsExpr value) : IsStatement (.assign name value)
  | setField (holder field : String) {value : Node} (h : IsExpr value) :
    IsStatement (.setField holder field value)
  | print {value : Node} (newline : Bool) (h : IsExpr value) : IsStatement (.print value newline)
  | raise {message : Node} (h : IsExpr message) : IsStatement (.raise message)
  | importScript {path : Node} (h : IsExpr path) : IsStatement (.importScript path)
  | extend {kind box function arity : Node} (hk : IsExpr kind) (hb : IsExpr box)
    (hf : IsExpr function) (ha : IsExpr arity) : IsStatement (.extend kind box function arity)
  | giveBackNone : IsStatement (.giveBack none)
  | giveBack {value : Node} (h : IsExpr value) : IsStatement (.giveBack (some value))
  | ifElse {condition : Node} {yes : List Node} {no : Option (List Node)} (hc : IsExpr condition)
    (hyes : ∀ n ∈ yes, IsStatement n) (hno : ∀ n ∈ no.getD [], IsStatement n) :
    IsStatement (.ifElse condition yes no)
  | whileDo {condition : Node} {body : List Node} (hc : IsExpr condition)
    (hbody : ∀ n ∈ body, IsStatement n) : IsStatement (.whileDo condition body)
  | forDo {init condition increment : Node} {body : List Node} (hinit : IsStatement init)
    (hc : IsExpr condition) (hincrement : IsStatement increment)
    (hbody : ∀ n ∈ body, IsStatement n) : IsStatement (.forDo init condition increment body)
  | function {routine : Routine} (h : ∀ n ∈ routine.body, IsStatement n) :
    IsStatement (.function routine)
  | box {declaration : BoxDecl} (hfields : ∀ f ∈ declaration.fields, IsExpr f.init)
    (hmethods : ∀ f ∈ declaration.methods, ∀ n ∈ f.routine.body, IsStatement n) :
    IsStatement (.box declaration)

/-! ## Readings -/

/-- What a reading gives, if it gives anything, is in `Q`. -/
def Yields {α : Type} (Q : α → Prop) (x : Except SyntaxError α) : Prop := ∀ a, x = .ok a → Q a

section Yields

variable {α β : Type} {P : α → Prop} {Q : β → Prop}

theorem yields_ok {a : α} (h : P a) : Yields P (.ok a) := by
  rintro a' ⟨⟩
  exact h

theorem yields_pure {a : α} (h : P a) : Yields P (pure a) := yields_ok h

theorem yields_error (e : SyntaxError) : Yields P (.error e) := by
  rintro a ⟨⟩

theorem Yields.bind {x : Except SyntaxError α} {f : α → Except SyntaxError β} (h : Yields P x)
    (hf : ∀ a, P a → Yields Q (f a)) : Yields Q (x >>= f) := by
  cases x with
  | error e => exact yields_error e
  | ok a => exact hf a (h a rfl)

/-- Of what some readings give nothing has to be known. -/
theorem yields_bind {x : Except SyntaxError α} {f : α → Except SyntaxError β}
    (hf : ∀ a, Yields Q (f a)) : Yields Q (x >>= f) := by
  cases x with
  | error e => exact yields_error e
  | ok a => exact hf a

/-- A reading goes on behind what has been read, on fewer tokens. -/
theorem Yields.next {ts : Tokens} {P : Parsed α ts → Prop}
    {x : Except SyntaxError (Parsed α ts)} {f : Parsed α ts → Except SyntaxError β}
    (h : Yields P x) (hf : ∀ value rest (shorter : rest.length < ts.length),
      P ⟨value, rest, shorter⟩ → Yields Q (f ⟨value, rest, shorter⟩)) : Yields Q (x >>= f) :=
  h.bind fun p => hf p.value p.rest p.shorter

theorem yields_next {ts : Tokens} {x : Except SyntaxError (Parsed α ts)}
    {f : Parsed α ts → Except SyntaxError β}
    (hf : ∀ value rest (shorter : rest.length < ts.length),
      Yields Q (f ⟨value, rest, shorter⟩)) : Yields Q (x >>= f) :=
  yields_bind fun p => hf p.value p.rest p.shorter

end Yields

/-! ## Expressions -/

section Parser

variable {size : Nat} {minus : Node → Node}

/-- A minus sign makes expressions of expressions. -/
def MinusExpr (minus : Node → Node) : Prop := ∀ {node}, IsExpr node → IsExpr (minus node)

theorem minusExpr_negated : MinusExpr negated := by
  intro node h
  unfold negated
  split
  · exact .int _
  · exact .negate h

theorem yields_memberField (dot : Span) (node : Node) (name : String) :
    Yields IsExpr (memberField dot node name) := by
  unfold memberField
  split
  · exact yields_ok (.field _ name)
  · exact yields_error _

/-- A call of a function of an instance is an expression, as far as it may be called. -/
theorem yields_memberCall (dot : Span) {node : Node} (h : IsExpr node) {call : Invocation}
    (hargs : ∀ a ∈ call.args, IsExpr a) : Yields IsExpr (memberCall dot node call) := by
  have hnone : ∀ c ∈ ([] : List Invocation), ∀ a ∈ c.args, IsExpr a := by simp
  unfold memberCall
  split
  · exact yields_ok (.method _ hargs hnone)
  · exact yields_ok (.method _ hargs hnone)
  · next receiver first further =>
    cases h with
    | method _ hfirst hfurther =>
      refine yields_ok (.method receiver hfirst fun c hc => ?_)
      rcases List.mem_append.1 hc with hc | hc
      · exact hfurther c hc
      · rw [List.mem_singleton.1 hc]
        exact hargs
  · exact yields_error _

/-- The parsers of expressions give expressions on fewer than `n` tokens. -/
structure ExprsBelow (size : Nat) (minus : Node → Node) (n : Nat) : Prop where
  expr : ∀ {ts}, ts.length < n → Yields (IsExpr ·.value) (expr size minus ts)
  tier : ∀ (t : Tier) {ts}, ts.length < n → Yields (IsExpr ·.value) (tier size minus t ts)
  operators : ∀ (t : Tier) {left ts}, IsExpr left → ts.length < n →
    Yields (IsExpr ·.value) (operators size minus t left ts)
  unary : ∀ {ts}, ts.length < n → Yields (IsExpr ·.value) (unary size minus ts)
  applied : ∀ {node ts}, IsExpr node → ts.length < n →
    Yields (IsExpr ·.value) (applied size minus node ts)
  items : ∀ (close : Sign) {ts}, ts.length < n →
    Yields (fun p => ∀ a ∈ p.value, IsExpr a) (items size minus close ts)
  moreItems : ∀ (close : Sign) {ts}, ts.length < n →
    Yields (fun p => ∀ a ∈ p.value, IsExpr a) (moreItems size minus close ts)

section Step

variable {n : Nat} {ts : Tokens}

theorem yields_operators (B : ExprsBelow size minus n) (hn : ts.length ≤ n) (t : Tier)
    {left : Node} (hleft : IsExpr left) :
    Yields (IsExpr ·.value) (operators size minus t left ts) := by
  cases ts with
  | nil =>
    rw [operators]
    exact yields_ok hleft
  | cons front rest =>
    obtain ⟨token, span⟩ := front
    rw [List.length_cons] at hn
    rw [operators]
    cases t.op? token with
    | none => exact yields_ok hleft
    | some op =>
      refine (B.tier t.tighter (by omega)).next fun right rest' h₁ hright => ?_
      exact (B.operators t (.binary op hleft hright) (by omega)).bind fun _ h => yields_pure h

theorem yields_optionalArgs (B : ExprsBelow size minus n) (ts : Tokens) (hn : ts.length ≤ n) :
    Yields (fun p => ∀ a ∈ p.value.getD [], IsExpr a) (optionalArgs size minus ts) := by
  unfold optionalArgs
  split
  · rw [List.length_cons] at hn
    exact (B.items .rParen (by omega)).bind fun _ hargs => yields_pure hargs
  · exact yields_ok (by simp)

/-- Whatever is applied to an expression makes an expression of it. -/
theorem yields_applied (B : ExprsBelow size minus n) (hn : ts.length ≤ n) {node : Node}
    (hnode : IsExpr node) : Yields (IsExpr ·.value) (applied size minus node ts) := by
  unfold applied
  split
  · -- an index
    rw [List.length_cons] at hn
    refine (B.expr (by omega)).next fun position rest h₁ hposition => ?_
    refine yields_next fun _ rest h₂ => ?_
    exact (B.applied (.index hnode hposition) (by omega)).bind fun _ h => yields_pure h
  · -- an extension
    rw [List.length_cons] at hn
    refine yields_next fun name rest h₁ => ?_
    have hargs := yields_optionalArgs B rest (by omega)
    refine hargs.bind ?_
    rintro ⟨args, rest, h₂⟩ hargs
    exact (B.applied (.extension name hnode hargs) (by omega)).bind fun _ h => yields_pure h
  · next dot _ =>
    -- a field or a method
    rw [List.length_cons] at hn
    refine yields_next fun name rest h₁ => ?_
    have hargs := yields_optionalArgs B rest (by omega)
    refine hargs.bind ?_
    rintro ⟨args, rest, h₂⟩ hargs
    have hfurther : ∀ member, IsExpr member →
        Yields (IsExpr ·.value) (applied size minus member rest) :=
      fun member hmember => B.applied hmember (by omega)
    cases args with
    | none =>
      refine (yields_memberField dot node name).bind fun member hmember => ?_
      exact (hfurther member hmember).bind fun _ h => yields_pure h
    | some args =>
      refine (yields_memberCall dot hnode hargs).bind fun member hmember => ?_
      exact (hfurther member hmember).bind fun _ h => yields_pure h
  · exact yields_ok hnode

theorem yields_inParens (B : ExprsBelow size minus n) (hn : ts.length ≤ n) :
    Yields (IsExpr ·.value) (inParens size minus ts) := by
  rw [inParens]
  refine yields_next fun _ rest h₁ => ?_
  refine (B.expr (by omega)).next fun node rest h₂ hnode => ?_
  exact yields_bind fun _ => yields_pure hnode

/-- A primary is an expression. -/
theorem yields_primary (B : ExprsBelow size minus n) (hn : ts.length ≤ n) :
    Yields (IsExpr ·.value) (primary size minus ts) := by
  unfold primary
  split
  · exact yields_ok (.int _)
  · exact yields_ok (.str _)
  · next name _ rest =>
    rw [List.length_cons] at hn
    have hargs := yields_optionalArgs B rest (by omega)
    refine hargs.bind ?_
    rintro ⟨args, rest, h₁⟩ hargs
    cases args with
    | none => exact yields_pure (.var name)
    | some args => exact yields_pure (.call name hargs)
  · rw [List.length_cons] at hn
    refine (B.expr (by omega)).next fun node rest h₁ hnode => ?_
    exact yields_bind fun _ => yields_pure hnode
  · rw [List.length_cons] at hn
    exact (B.items .rBracket (by omega)).bind fun _ h => yields_pure (.array h)
  · exact yields_bind fun _ => yields_pure (.create _)
  · exact yields_ok .input
  · rw [List.length_cons] at hn
    exact (yields_inParens B (by omega)).bind fun _ h => yields_pure (.readLines h)
  · rw [List.length_cons] at hn
    exact (yields_inParens B (by omega)).bind fun _ h => yields_pure (.readText h)
  · rw [List.length_cons] at hn
    exact (yields_inParens B (by omega)).bind fun _ h => yields_pure (.fileExists h)
  · exact yields_error _

theorem yields_unary (hm : MinusExpr minus) (B : ExprsBelow size minus n) (hn : ts.length ≤ n) :
    Yields (IsExpr ·.value) (unary size minus ts) := by
  unfold unary
  split
  · rw [List.length_cons] at hn
    exact (B.unary (by omega)).bind fun _ h => yields_pure (hm h)
  · rw [postfixed]
    refine (yields_primary B hn).next fun node rest h₁ hnode => ?_
    exact (B.applied hnode (by omega)).bind fun _ h => yields_pure h

theorem yields_tier (hm : MinusExpr minus) (B : ExprsBelow size minus n) (hn : ts.length ≤ n)
    (t : Tier) : Yields (IsExpr ·.value) (tier size minus t ts) := by
  -- from the tightest tier to the loosest
  have loosen : ∀ {t : Tier}, t ≠ .unary →
      Yields (IsExpr ·.value) (tier size minus t.tighter ts) →
      Yields (IsExpr ·.value) (tier size minus t ts) := by
    intro t ht htighter
    rw [tier, dif_neg ht]
    refine htighter.next fun left rest h₁ hleft => ?_
    exact (B.operators t hleft (by omega)).bind fun _ h => yields_pure h
  have hunary : Yields (IsExpr ·.value) (tier size minus .unary ts) := by
    rw [tier, dif_pos rfl]
    exact yields_unary hm B hn
  have hproduct := loosen (t := .product) (by decide) hunary
  have hsum := loosen (t := .sum) (by decide) hproduct
  have hcomparison := loosen (t := .comparison) (by decide) hsum
  cases t with
  | unary => exact hunary
  | product => exact hproduct
  | sum => exact hsum
  | comparison => exact hcomparison
  | logic => exact loosen (t := .logic) (by decide) hcomparison

theorem yields_moreItems (hm : MinusExpr minus) (B : ExprsBelow size minus n)
    (hn : ts.length ≤ n) (close : Sign) :
    Yields (fun p => ∀ a ∈ p.value, IsExpr a) (moreItems size minus close ts) := by
  rw [moreItems, expr]
  refine (yields_tier hm B hn .logic).next fun item rest h₁ hitem => ?_
  dsimp only
  rcases accept (.sign .comma) rest with ⟨goesOn, rest, h₂⟩
  cases goesOn with
  | true =>
    have hmore := B.moreItems close (show rest.length < n by omega)
    refine hmore.next fun others rest h₃ hothers => ?_
    exact yields_pure (List.forall_mem_cons.2 ⟨hitem, hothers⟩)
  | false =>
    exact yields_bind fun _ => yields_pure (List.forall_mem_singleton.2 hitem)

theorem yields_items (hm : MinusExpr minus) (B : ExprsBelow size minus n) (hn : ts.length ≤ n)
    (close : Sign) :
    Yields (fun p => ∀ a ∈ p.value, IsExpr a) (items size minus close ts) := by
  unfold items
  split
  · exact yields_bind fun _ => yields_pure (by simp)
  · exact yields_moreItems hm B hn close

end Step

/-- The parser of expressions yields expressions, by the number of the tokens that are left. -/
theorem exprsBelow (hm : MinusExpr minus) (n : Nat) : ExprsBelow size minus n := by
  -- the parsers call each other, but what they call in the end has fewer tokens to read
  induction n with
  | zero => constructor <;> · intros; omega
  | succ n ih =>
    exact
      { expr := fun hn => by
          rw [expr]
          exact yields_tier hm ih (Nat.le_of_lt_succ hn) .logic
        tier := fun t _ hn => yields_tier hm ih (Nat.le_of_lt_succ hn) t
        operators := fun t _ _ hleft hn => yields_operators ih (Nat.le_of_lt_succ hn) t hleft
        unary := fun hn => yields_unary hm ih (Nat.le_of_lt_succ hn)
        applied := fun hnode hn => yields_applied ih (Nat.le_of_lt_succ hn) hnode
        items := fun close _ hn => yields_items hm ih (Nat.le_of_lt_succ hn) close
        moreItems := fun close _ hn => yields_moreItems hm ih (Nat.le_of_lt_succ hn) close }

/-- What is read as an expression is one. -/
theorem yields_expr (hm : MinusExpr minus) (ts : Tokens) :
    Yields (IsExpr ·.value) (expr size minus ts) :=
  (exprsBelow hm (ts.length + 1)).expr (Nat.lt_succ_self _)

/-! ## Statements -/

/-- The members of a box are expressions and bodies of statements. -/
structure Members.InGrammar (ms : Members) : Prop where
  fields : ∀ f ∈ ms.fields, IsExpr f.init
  methods : ∀ f ∈ ms.methods, f.routine.BodyIn IsStatement

/-- The parsers of statements give statements on fewer than `n` tokens. -/
structure StatementsBelow (size : Nat) (minus : Node → Node) (n : Nat) : Prop where
  statement : ∀ {ts}, ts.length < n → Yields (IsStatement ·.value) (statement size minus ts)
  block : ∀ (elseToo : Bool) {ts}, ts.length < n →
    Yields (fun p => ∀ n ∈ p.value, IsStatement n) (block size minus elseToo ts)
  routine : ∀ {ts}, ts.length < n →
    Yields (fun p => p.value.BodyIn IsStatement) (routine size minus ts)
  routineBody : ∀ {ts}, ts.length < n →
    Yields (fun p => ∀ n ∈ p.value, IsStatement n) (routineBody size minus ts)
  members : ∀ {ts}, ts.length < n → Yields (·.value.InGrammar) (members size minus ts)

section Step

variable {n : Nat} {ts : Tokens}

theorem yields_routine (B : StatementsBelow size minus n) (hn : ts.length ≤ n) :
    Yields (fun p => p.value.BodyIn IsStatement) (routine size minus ts) := by
  rw [routine]
  refine yields_next fun name rest h₁ => yields_next fun params rest h₂ => ?_
  exact (B.routineBody (by omega)).bind fun _ hbody => yields_pure hbody

/-- The members of a box are expressions and routines of statements. -/
theorem yields_members (hm : MinusExpr minus) (B : StatementsBelow size minus n)
    (hn : ts.length ≤ n) : Yields (·.value.InGrammar) (members size minus ts) := by
  unfold members
  split
  · exact yields_bind fun _ => yields_pure ⟨by simp, by simp⟩
  · dsimp only [pure_bind]
    rcases memberAccess ts with ⟨access, rest, h₁⟩
    dsimp only
    rcases accept (.keyword .abstract) rest with ⟨isAbstract, rest, h₂⟩
    dsimp only
    rcases accept (.keyword .function) rest with ⟨isFunction, rest, h₃⟩
    dsimp only
    split
    · -- an abstract function has no body
      refine yields_next fun name rest h₄ => ?_
      dsimp only
      refine yields_next fun params rest h₅ => ?_
      have hmembers := B.members (show rest.length < n by omega)
      refine hmembers.bind fun _ hothers => yields_pure ⟨hothers.fields, ?_⟩
      exact List.forall_mem_cons.2 ⟨List.forall_mem_nil _, hothers.methods⟩
    · split
      · refine (yields_routine B (by omega)).next fun routine rest h₄ hroutine => ?_
        have hmembers := B.members (show rest.length < n by omega)
        refine hmembers.bind fun _ hothers => yields_pure ⟨hothers.fields, ?_⟩
        exact List.forall_mem_cons.2 ⟨hroutine, hothers.methods⟩
      · split
        · exact yields_error _
        · refine yields_next fun name rest h₄ => ?_
          dsimp only
          refine yields_next fun _ rest h₅ => ?_
          refine (yields_expr hm rest).next fun init rest h₆ hinit => ?_
          have hmembers := B.members (show rest.length < n by omega)
          refine hmembers.bind fun _ hothers => yields_pure ⟨?_, hothers.methods⟩
          exact List.forall_mem_cons.2 ⟨hinit, hothers.fields⟩

theorem yields_boxDeclaration (B : StatementsBelow size minus n) (hn : ts.length ≤ n) :
    Yields (IsStatement ·.value) (boxDeclaration size minus ts) := by
  rw [boxDeclaration]
  rcases modifiers false false ts with ⟨⟨isConst, isAbstract⟩, rest, h₁⟩
  dsimp only
  refine yields_next fun _ rest h₂ => ?_
  dsimp only
  refine yields_next fun name rest h₃ => ?_
  dsimp only
  rcases accept (.sign .colon) rest with ⟨based, rest, h₄⟩
  dsimp only
  split
  · refine yields_next fun base rest h₅ => ?_
    have hmembers := B.members (show rest.length < n by omega)
    exact hmembers.bind fun _ h => yields_pure (.box h.fields h.methods)
  · have hmembers := B.members (show rest.length < n by omega)
    exact hmembers.bind fun _ h => yields_pure (.box h.fields h.methods)

theorem yields_statement (hm : MinusExpr minus) (B : StatementsBelow size minus n)
    (hn : ts.length ≤ n) : Yields (IsStatement ·.value) (statement size minus ts) := by
  unfold statement
  split
  -- `function`, `return`, `print`
  · rw [List.length_cons] at hn
    exact (B.routine (by omega)).bind fun _ h => yields_pure (.function h)
  · exact yields_ok .giveBackNone
  · exact (yields_expr hm _).bind fun _ h => yields_pure (.giveBack h)
  · exact (yields_expr hm _).bind fun _ h => yields_pure (.print true h)
  · exact (yields_expr hm _).bind fun _ h => yields_pure (.print false h)
  · -- `if`
    rw [List.length_cons] at hn
    refine (yields_expr hm _).next fun condition rest h₁ hc => ?_
    refine (B.block true (by omega)).bind ?_
    rintro ⟨yes, rest, h₂⟩ hyes
    dsimp only
    rcases accept (.keyword .otherwise) rest with ⟨hasElse, rest, h₃⟩
    dsimp only
    split
    · refine (B.block false (by omega)).bind ?_
      rintro ⟨no, rest, h₄⟩ hno
      exact yields_bind fun _ => yields_pure (.ifElse hc hyes hno)
    · exact yields_bind fun _ => yields_pure (.ifElse hc hyes (by simp))
  · -- `while`
    rw [List.length_cons] at hn
    refine (yields_expr hm _).next fun condition rest h₁ hc => ?_
    refine (B.block false (by omega)).bind ?_
    rintro ⟨body, rest, h₂⟩ hbody
    exact yields_bind fun _ => yields_pure (.whileDo hc hbody)
  · -- `for`: its clauses are statements
    rw [List.length_cons] at hn
    refine (B.statement (by omega)).next fun init rest h₁ hinit => ?_
    refine yields_next fun _ rest h₂ => ?_
    refine (yields_expr hm _).next fun condition rest h₃ hc => ?_
    refine yields_next fun _ rest h₄ => ?_
    refine (B.statement (by omega)).next fun increment rest h₅ hincrement => ?_
    refine (B.block false (by omega)).bind ?_
    rintro ⟨body, rest, h₆⟩ hbody
    exact yields_bind fun _ => yields_pure (.forDo hinit hc hincrement hbody)
  · exact (yields_expr hm _).bind fun _ h => yields_pure (.raise h)
  · exact (yields_expr hm _).bind fun _ h => yields_pure (.importScript h)
  · refine yields_next fun _ rest _ => (yields_expr hm _).next fun kind rest _ hk => ?_
    refine yields_next fun _ rest _ => (yields_expr hm _).next fun box rest _ hb => ?_
    refine yields_next fun _ rest _ => (yields_expr hm _).next fun function rest _ hf => ?_
    refine yields_next fun _ rest _ => (yields_expr hm _).next fun arity rest _ ha => ?_
    exact yields_bind fun _ => yields_pure (.extend hk hb hf ha)
  -- a definition begins with one of three words
  · exact yields_boxDeclaration B hn
  · exact yields_boxDeclaration B hn
  · exact yields_boxDeclaration B hn
  · exact (yields_expr hm _).bind fun _ h => yields_pure (.assign _ h)
  · exact (yields_expr hm _).bind fun _ h => yields_pure (.setField _ _ h)
  · exact yields_error _
  -- anything else is an expression
  · exact fun p hp => .expr (yields_expr hm _ p hp)

theorem yields_block (hm : MinusExpr minus) (B : StatementsBelow size minus n)
    (hn : ts.length ≤ n) (elseToo : Bool) :
    Yields (fun p => ∀ n ∈ p.value, IsStatement n) (block size minus elseToo ts) := by
  unfold block
  split
  · exact yields_error _
  · split
    · exact yields_ok (by simp)
    · refine (yields_statement hm B hn).next fun first rest h₁ hfirst => ?_
      refine (B.block elseToo (by omega)).bind ?_
      rintro ⟨further, rest, h₂⟩ hfurther
      exact yields_pure (List.forall_mem_cons.2 ⟨hfirst, hfurther⟩)

theorem yields_routineBody (hm : MinusExpr minus) (B : StatementsBelow size minus n)
    (hn : ts.length ≤ n) :
    Yields (fun p => ∀ n ∈ p.value, IsStatement n) (routineBody size minus ts) := by
  unfold routineBody
  split
  · exact yields_error _
  · exact yields_ok (by simp)
  · refine (yields_statement hm B hn).next fun first rest h₁ hfirst => ?_
    dsimp only
    split
    · exact yields_pure (List.forall_mem_singleton.2 hfirst)
    · refine (B.routineBody (by omega)).next fun further rest h₂ hfurther => ?_
      exact yields_pure (List.forall_mem_cons.2 ⟨hfirst, hfurther⟩)

end Step

theorem statementsBelow (hm : MinusExpr minus) (n : Nat) : StatementsBelow size minus n := by
  induction n with
  | zero => constructor <;> · intros; omega
  | succ n ih =>
    exact
      { statement := fun hn => yields_statement hm ih (Nat.le_of_lt_succ hn)
        block := fun elseToo _ hn => yields_block hm ih (Nat.le_of_lt_succ hn) elseToo
        routine := fun hn => yields_routine ih (Nat.le_of_lt_succ hn)
        routineBody := fun hn => yields_routineBody hm ih (Nat.le_of_lt_succ hn)
        members := fun hn => yields_members hm ih (Nat.le_of_lt_succ hn) }

theorem yields_statements (hm : MinusExpr minus) (ts : Tokens) :
    Yields (fun program => ∀ n ∈ program, IsStatement n) (statements size minus ts) := by
  induction hn : ts.length using Nat.strongRecOn generalizing ts with
  | ind n ih =>
    subst hn
    unfold statements
    split
    · exact yields_ok (by simp)
    · next token span others =>
      have hfirst : Yields (IsStatement ·.value) (statement size minus ((token, span) :: others)) :=
        (statementsBelow hm _).statement (Nat.lt_succ_self _)
      refine hfirst.next fun first rest h₁ hfirst => ?_
      refine (ih _ h₁ rest rfl).bind fun further hfurther => ?_
      exact yields_pure (List.forall_mem_cons.2 ⟨hfirst, hfurther⟩)

end Parser

/-- **What is read as a program consists of statements.** -/
theorem isStatement_of_ofSource {source : String} {program : Program}
    (h : Program.ofSource source = .ok program) : ∀ n ∈ program, IsStatement n := by
  have hyields : Yields (fun program => ∀ n ∈ program, IsStatement n) (Program.ofSource source) :=
    yields_bind fun tokens => yields_statements minusExpr_negated tokens
  exact hyields program h

/-- The grammar is a language. -/
theorem grammar_language : Language IsExpr IsStatement where
  expression h := .expr h
  parsed h := isStatement_of_ofSource h
  parts {node} h := by
    cases h with
    | expr h =>
      cases h with
      | binary op hl hr => exact ⟨hl, hr⟩
      | index ht hp => exact ⟨ht, hp⟩
      | extension name ht h => exact ⟨ht, h⟩
      | method receiver hfirst hfurther => exact ⟨hfirst, hfurther⟩
      | array h | call _ h => exact h
      | negate h | readLines h | readText h | fileExists h => exact h
      | _ => trivial
    | extend hk hb hf ha => exact ⟨hk, hb, hf, ha⟩
    | assign _ h | setField _ _ h | print _ h | raise h | importScript h | giveBack h => exact h
    | giveBackNone => trivial
    | ifElse hc | whileDo hc | forDo _ hc => exact hc
    | function h => exact h
    | box hfields hmethods =>
      constructor
      · intro f hf
        obtain ⟨d, hd, rfl⟩ := List.mem_map.1 hf
        exact hfields d hd
      · intro f hf
        obtain ⟨d, hd, rfl⟩ := List.mem_map.1 hf
        exact hmethods d hd
  below {node} h := by
    cases h with
    -- expressions hold no statements
    | expr h => cases h <;> exact fun _ hn => by cases hn
    | ifElse hc hyes hno => exact List.forall_mem_append.2 ⟨hyes, hno⟩
    | whileDo hc hbody => exact hbody
    | forDo hinit hc hincrement hbody =>
      exact List.forall_mem_cons.2 ⟨hinit, List.forall_mem_cons.2 ⟨hincrement, hbody⟩⟩
    | _ => exact fun _ hn => by cases hn

end BoxScript
