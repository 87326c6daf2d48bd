import BoxScript.Node
import BoxScript.Token.Lexeme

/-!
# From tokens to trees

A parser takes tokens off the front of the list and leaves the rest, with a proof that the rest is
shorter. That proof is what makes the mutual recursion below end: a parser calls itself on what is
left, or calls one of lower rank on the same tokens.

Statements have no separators, so the grammar alone decides where one ends. The body of a function
ends after its first `return`, or at `end` when it has none. The operators between operands have
four tiers, each of which groups to the left.
-/

namespace BoxScript

/-- What a parser has read from the tokens `ts`, and what it left of them. -/
structure Parsed (α : Type) (ts : Tokens) where
  value : α
  rest : Tokens
  shorter : rest.length < ts.length

/-- What a parser has read that may take no token at all. -/
structure Passed (α : Type) (ts : Tokens) where
  value : α
  rest : Tokens
  within : rest.length ≤ ts.length

/-- The parser's answer: what it read, or the error. -/
abbrev Reading (α : Type) (ts : Tokens) := Except SyntaxError (Parsed α ts)

/-- The answer of a parser that may take no token. -/
abbrev Passing (α : Type) (ts : Tokens) := Except SyntaxError (Passed α ts)

/-! ## Single tokens -/

/-- The token at the front. -/
def Tokens.peek (ts : Tokens) : Option Token := ts.head?.map (·.1)

/-- The place of the first token, or the end of the source, which is `size` bytes long. -/
def Tokens.place (size : Nat) (ts : Tokens) : Span :=
  match ts with
  | (_, span) :: _ => span
  | [] => .point size

/-- The error of meeting the front of `ts` where something else is wanted. -/
def Tokens.unexpected (size : Nat) (ts : Tokens) (wanted : Wanted) : SyntaxError :=
  ⟨.unexpected ts.peek wanted, ts.place size⟩

/-- Take the token `t`. -/
def expect (size : Nat) (t : Token) (ts : Tokens) : Reading Unit ts :=
  match ts with
  | (u, _) :: rest =>
    if u = t then .ok ⟨(), rest, Nat.lt_succ_self _⟩ else .error (Tokens.unexpected size ts (.token t))
  | [] => .error (Tokens.unexpected size ts (.token t))

/-- Take a name. -/
def expectName (size : Nat) (wanted : Wanted) (ts : Tokens) : Reading String ts :=
  match ts with
  | (.ident name, _) :: rest => .ok ⟨name, rest, Nat.lt_succ_self _⟩
  | _ => .error (Tokens.unexpected size ts wanted)

/-- Take the token `t` if it stands at the front, and say whether it did. -/
def accept (t : Token) (ts : Tokens) : Passed Bool ts :=
  match ts with
  | (u, span) :: rest =>
    if u = t then ⟨true, rest, Nat.le_succ _⟩ else ⟨false, (u, span) :: rest, Nat.le_refl _⟩
  | [] => ⟨false, [], Nat.le_refl _⟩

/-! ## Parameters -/

/-- Parameter names up to the closing parenthesis, the first of which is due. -/
def paramNames (size : Nat) (ts : Tokens) : Reading (List String) ts := do
  let ⟨name, rest, h⟩ ← expectName size .parameterName ts
  let ⟨goesOn, rest, h₁⟩ := accept (.sign .comma) rest
  if goesOn then
    let ⟨names, rest, h₂⟩ ← paramNames size rest
    return ⟨name :: names, rest, by omega⟩
  else
    let ⟨_, rest, h₂⟩ ← expect size (.sign .rParen) rest
    return ⟨[name], rest, by omega⟩
termination_by ts.length

/-- A parameter list in its parentheses. -/
def paramList (size : Nat) (ts : Tokens) : Reading (List String) ts := do
  let ⟨_, rest, h⟩ ← expect size (.sign .lParen) ts
  let ⟨closed, rest, h₁⟩ := accept (.sign .rParen) rest
  if closed then return ⟨[], rest, by omega⟩
  let ⟨names, rest, h₂⟩ ← paramNames size rest
  return ⟨names, rest, by omega⟩

/-! ## Operators -/

/-- The tiers of the operators, loosest last. -/
inductive Tier where
  | unary | product | sum | comparison | logic
  deriving DecidableEq, Repr

/-- The operator that a token is at a tier. -/
def Tier.op? : Tier → Token → Option BinOp
  | product, .sign .star => some .mul
  | product, .sign .slash => some .div
  | product, .sign .percent => some .mod
  | product, .sign .starStar => some .pow
  | sum, .sign .plus => some .add
  | sum, .sign .minus => some .sub
  | comparison, .sign .gt => some .gt
  | comparison, .sign .gtEq => some .ge
  | comparison, .sign .lt => some .lt
  | comparison, .sign .ltEq => some .le
  | comparison, .sign .eqEq => some .eq
  | comparison, .sign .notEq => some .ne
  | logic, .sign .andAnd => some .and
  | logic, .sign .orOr => some .or
  | _, _ => none

/-- The tier of an operator's operands. -/
def Tier.tighter : Tier → Tier
  | unary => unary
  | product => unary
  | sum => product
  | comparison => sum
  | logic => comparison

/-- How loose a tier is. -/
def Tier.rank : Tier → Nat
  | unary => 0
  | product => 1
  | sum => 2
  | comparison => 3
  | logic => 4

theorem Tier.rank_tighter_lt {t : Tier} (h : t ≠ unary) : t.tighter.rank < t.rank := by
  cases t <;> simp_all [tighter, rank]

/-- The minus of an integer is part of the integer. -/
def negated : Node → Node
  | .int n => .int (-n)
  | operand => .negate operand

/-- The member `name` of what `node` stands for, without arguments. The error stands at `dot`. -/
def memberField (dot : Span) (node : Node) (name : String) : Except SyntaxError Node :=
  match node with
  | .var holder => .ok (.field holder name)
  | _ => .error ⟨.fieldOfNoVariable, dot⟩

/-- The call of the member on what `node` stands for. The error stands at `dot`. -/
def memberCall (dot : Span) (node : Node) (call : Invocation) : Except SyntaxError Node :=
  match node with
  | .var holder => .ok (.method (.named holder) call [])
  | .create box => .ok (.method (.created box) call [])
  | .method receiver first further => .ok (.method receiver first (further ++ [call]))
  | _ => .error ⟨.methodOfNoInstance, dot⟩

/-- The words `const` and `abstract` before a box, in any order and number: whether each of them
stands there. -/
def modifiers (isConst isAbstract : Bool) (ts : Tokens) : Passed (Bool × Bool) ts :=
  match ts with
  | (.keyword .const, _) :: rest =>
    let ⟨flags, left, h⟩ := modifiers true isAbstract rest
    ⟨flags, left, Nat.le_succ_of_le h⟩
  | (.keyword .abstract, _) :: rest =>
    let ⟨flags, left, h⟩ := modifiers isConst true rest
    ⟨flags, left, Nat.le_succ_of_le h⟩
  | ts => ⟨(isConst, isAbstract), ts, Nat.le_refl _⟩

/-- Whether `guarded` or `exposed` stands before a member. -/
def memberAccess (ts : Tokens) : Passed Access ts :=
  match ts with
  | (.keyword .guarded, _) :: rest => ⟨.guarded, rest, Nat.le_succ _⟩
  | (.keyword .exposed, _) :: rest => ⟨.exposed, rest, Nat.le_succ _⟩
  | ts => ⟨.exposed, ts, Nat.le_refl _⟩

/-- The members of a box in the order of the source, fields and functions apart. -/
structure Members where
  fields : List FieldDecl
  methods : List MethodDecl

/-- The members with one more field before them. -/
def Members.addField (ms : Members) (f : FieldDecl) : Members :=
  { ms with fields := f :: ms.fields }

/-- The members with one more function before them. -/
def Members.addMethod (ms : Members) (m : MethodDecl) : Members :=
  { ms with methods := m :: ms.methods }

/-- Whether a block ends before this token. -/
def endsBlock (elseToo : Bool) : Token → Bool
  | .keyword .endBlock => true
  | .keyword .otherwise => elseToo
  | _ => false

/-! ## The grammar -/

section Grammar

/- The source is `size` bytes long, and `minus` is the tree that a minus sign makes of its operand. -/
variable (size : Nat) (minus : Node → Node)

mutual

/-- An expression. -/
def expr (ts : Tokens) : Reading Node ts :=
  tier .logic ts
termination_by (ts.length, 8)
decreasing_by exact Prod.Lex.right _ (by decide)

/-- An expression whose operators are no looser than the tier. -/
def tier (t : Tier) (ts : Tokens) : Reading Node ts :=
  if h : t = .unary then unary ts
  else do
    let ⟨left, rest, h₁⟩ ← tier t.tighter ts
    let ⟨node, rest, h₂⟩ ← operators t left rest
    return ⟨node, rest, by omega⟩
termination_by (ts.length, 3 + t.rank)
decreasing_by
  · exact Prod.Lex.right _ (by omega)
  · exact Prod.Lex.right _ (Nat.add_lt_add_left (Tier.rank_tighter_lt h) 3)
  · exact Prod.Lex.left _ _ h₁

/-- The operators of a tier that follow `left`, with their right operands. -/
def operators (t : Tier) (left : Node) (ts : Tokens) : Passing Node ts :=
  match ts with
  | [] => .ok ⟨left, [], Nat.le_refl _⟩
  | (token, span) :: rest =>
    match t.op? token with
    | none => .ok ⟨left, (token, span) :: rest, Nat.le_refl _⟩
    | some op => do
      let ⟨right, rest, h₁⟩ ← tier t.tighter rest
      let ⟨node, rest, h₂⟩ ← operators t (.binary op left right) rest
      return ⟨node, rest, by simp only [List.length_cons]; omega⟩
termination_by (ts.length, 0)

/-- An operand with the minus signs before it. -/
def unary (ts : Tokens) : Reading Node ts :=
  match ts with
  | (.sign .minus, _) :: rest => do
    let ⟨operand, rest, h₁⟩ ← unary rest
    return ⟨minus operand, rest, by simp only [List.length_cons]; omega⟩
  | ts => postfixed ts
termination_by (ts.length, 2)

/-- A primary expression with what is applied to it. -/
def postfixed (ts : Tokens) : Reading Node ts := do
  let ⟨node, rest, h₁⟩ ← primary ts
  let ⟨node, rest, h₂⟩ ← applied node rest
  return ⟨node, rest, by omega⟩
termination_by (ts.length, 1)

/-- Indices, extensions and members that are applied to `node`. -/
def applied (node : Node) (ts : Tokens) : Passing Node ts :=
  match ts with
  | (.sign .lBracket, _) :: rest => do
    let ⟨position, rest, h₁⟩ ← expr rest
    let ⟨_, rest, h₂⟩ ← expect size (.sign .rBracket) rest
    let ⟨node, rest, h₃⟩ ← applied (.index node position) rest
    return ⟨node, rest, by simp only [List.length_cons]; omega⟩
  | (.sign .colon, _) :: rest => do
    let ⟨name, rest, h₁⟩ ← expectName size .extensionName rest
    let ⟨args, rest, h₂⟩ ← optionalArgs rest
    let ⟨node, rest, h₃⟩ ← applied (.extension node name (args.getD [])) rest
    return ⟨node, rest, by simp only [List.length_cons]; omega⟩
  | (.sign .dot, dot) :: rest => do
    let ⟨name, rest, h₁⟩ ← expectName size .memberName rest
    let ⟨args, rest, h₂⟩ ← optionalArgs rest
    let member ← match args with
      | none => memberField dot node name
      | some args => memberCall dot node ⟨name, args⟩
    let ⟨node, rest, h₃⟩ ← applied member rest
    return ⟨node, rest, by simp only [List.length_cons]; omega⟩
  | ts => .ok ⟨node, ts, Nat.le_refl _⟩
termination_by (ts.length, 0)

/-- An argument list in parentheses, if one stands there. -/
def optionalArgs (ts : Tokens) : Passing (Option (List Node)) ts :=
  match ts with
  | (.sign .lParen, _) :: rest => do
    let ⟨args, rest, h₁⟩ ← items .rParen rest
    return ⟨some args, rest, by simp only [List.length_cons]; omega⟩
  | ts => .ok ⟨none, ts, Nat.le_refl _⟩
termination_by (ts.length, 0)

/-- Expressions with commas between them, up to the closing sign; there may be none. -/
def items (close : Sign) (ts : Tokens) : Reading (List Node) ts :=
  if ts.peek = some (.sign close) then do
    let ⟨_, rest, h₁⟩ ← expect size (.sign close) ts
    return ⟨[], rest, h₁⟩
  else moreItems close ts
termination_by (ts.length, 10)

/-- Expressions with commas between them, up to the closing sign; at least one. -/
def moreItems (close : Sign) (ts : Tokens) : Reading (List Node) ts := do
  let ⟨item, rest, h₁⟩ ← expr ts
  let ⟨goesOn, rest, h₂⟩ := accept (.sign .comma) rest
  if goesOn then
    let ⟨others, rest, h₃⟩ ← moreItems close rest
    return ⟨item :: others, rest, by omega⟩
  else
    let ⟨_, rest, h₃⟩ ← expect size (.sign close) rest
    return ⟨[item], rest, by omega⟩
termination_by (ts.length, 9)

/-- An expression in parentheses. -/
def inParens (ts : Tokens) : Reading Node ts := do
  let ⟨_, rest, h₁⟩ ← expect size (.sign .lParen) ts
  let ⟨node, rest, h₂⟩ ← expr rest
  let ⟨_, rest, h₃⟩ ← expect size (.sign .rParen) rest
  return ⟨node, rest, by omega⟩
termination_by (ts.length, 0)

/-- An expression that no operator is applied to. -/
def primary (ts : Tokens) : Reading Node ts :=
  match ts with
  | (.int n, _) :: rest => .ok ⟨.int n, rest, Nat.lt_succ_self _⟩
  | (.str s, _) :: rest => .ok ⟨.str s, rest, Nat.lt_succ_self _⟩
  | (.ident name, _) :: rest => do
    let ⟨args, rest, h₁⟩ ← optionalArgs rest
    match args with
    | none => return ⟨.var name, rest, by simp only [List.length_cons]; omega⟩
    | some args => return ⟨.call name args, rest, by simp only [List.length_cons]; omega⟩
  | (.sign .lParen, _) :: rest => do
    let ⟨node, rest, h₁⟩ ← expr rest
    let ⟨_, rest, h₂⟩ ← expect size (.sign .rParen) rest
    return ⟨node, rest, by simp only [List.length_cons]; omega⟩
  | (.sign .lBracket, _) :: rest => do
    let ⟨elements, rest, h₁⟩ ← items .rBracket rest
    return ⟨.array elements, rest, by simp only [List.length_cons]; omega⟩
  | (.keyword .create, _) :: rest => do
    let ⟨box, rest, h₁⟩ ← expectName size .boxName rest
    return ⟨.create box, rest, by simp only [List.length_cons]; omega⟩
  | (.keyword .input, _) :: rest => .ok ⟨.input, rest, Nat.lt_succ_self _⟩
  | (.keyword .readFile, _) :: rest => do
    let ⟨path, rest, h₁⟩ ← inParens rest
    return ⟨.readLines path, rest, by simp only [List.length_cons]; omega⟩
  | (.keyword .readWholeFile, _) :: rest => do
    let ⟨path, rest, h₁⟩ ← inParens rest
    return ⟨.readText path, rest, by simp only [List.length_cons]; omega⟩
  | (.keyword .fileExists, _) :: rest => do
    let ⟨path, rest, h₁⟩ ← inParens rest
    return ⟨.fileExists path, rest, by simp only [List.length_cons]; omega⟩
  | ts => .error (Tokens.unexpected size ts .expression)
termination_by (ts.length, 0)

end

mutual

/-- A statement. -/
def statement (ts : Tokens) : Reading Node ts :=
  match ts with
  | (.keyword .function, _) :: rest => do
    let ⟨routine, rest, h₁⟩ ← routine rest
    return ⟨.function routine, rest, by simp only [List.length_cons]; omega⟩
  | (.keyword .giveBack, _) :: (.keyword .void, _) :: rest =>
    .ok ⟨.giveBack none, rest, by simp only [List.length_cons]; omega⟩
  | (.keyword .giveBack, _) :: rest => do
    let ⟨value, rest, h₁⟩ ← expr size minus rest
    return ⟨.giveBack (some value), rest, by simp only [List.length_cons]; omega⟩
  | (.keyword .print, _) :: rest => do
    let ⟨value, rest, h₁⟩ ← expr size minus rest
    return ⟨.print value true, rest, by simp only [List.length_cons]; omega⟩
  | (.keyword .printInline, _) :: rest => do
    let ⟨value, rest, h₁⟩ ← expr size minus rest
    return ⟨.print value false, rest, by simp only [List.length_cons]; omega⟩
  | (.keyword .ifThen, _) :: rest => do
    let ⟨condition, rest, h₁⟩ ← expr size minus rest
    let ⟨yes, rest, h₂⟩ ← block true rest
    let ⟨hasElse, rest, h₃⟩ := accept (.keyword .otherwise) rest
    if hasElse then
      let ⟨no, rest, h₄⟩ ← block false rest
      let ⟨_, rest, h₅⟩ ← expect size (.keyword .endBlock) rest
      return ⟨.ifElse condition yes (some no), rest, by simp only [List.length_cons]; omega⟩
    else
      let ⟨_, rest, h₄⟩ ← expect size (.keyword .endBlock) rest
      return ⟨.ifElse condition yes none, rest, by simp only [List.length_cons]; omega⟩
  | (.keyword .whileDo, _) :: rest => do
    let ⟨condition, rest, h₁⟩ ← expr size minus rest
    let ⟨body, rest, h₂⟩ ← block false rest
    let ⟨_, rest, h₃⟩ ← expect size (.keyword .endBlock) rest
    return ⟨.whileDo condition body, rest, by simp only [List.length_cons]; omega⟩
  | (.keyword .forDo, _) :: rest => do
    let ⟨init, rest, h₁⟩ ← statement rest
    let ⟨_, rest, h₂⟩ ← expect size (.sign .semi) rest
    let ⟨condition, rest, h₃⟩ ← expr size minus rest
    let ⟨_, rest, h₄⟩ ← expect size (.sign .semi) rest
    let ⟨increment, rest, h₅⟩ ← statement rest
    let ⟨body, rest, h₆⟩ ← block false rest
    let ⟨_, rest, h₇⟩ ← expect size (.keyword .endBlock) rest
    return ⟨.forDo init condition increment body, rest, by simp only [List.length_cons]; omega⟩
  | (.keyword .raise, _) :: rest => do
    let ⟨message, rest, h₁⟩ ← expr size minus rest
    return ⟨.raise message, rest, by simp only [List.length_cons]; omega⟩
  | (.keyword .importScript, _) :: rest => do
    let ⟨path, rest, h₁⟩ ← expr size minus rest
    return ⟨.importScript path, rest, by simp only [List.length_cons]; omega⟩
  | (.keyword .extension, _) :: rest => do
    let ⟨_, rest, h₁⟩ ← expect size (.sign .lParen) rest
    let ⟨kind, rest, h₂⟩ ← expr size minus rest
    let ⟨_, rest, h₃⟩ ← expect size (.sign .comma) rest
    let ⟨box, rest, h₄⟩ ← expr size minus rest
    let ⟨_, rest, h₅⟩ ← expect size (.sign .comma) rest
    let ⟨function, rest, h₆⟩ ← expr size minus rest
    let ⟨_, rest, h₇⟩ ← expect size (.sign .comma) rest
    let ⟨arity, rest, h₈⟩ ← expr size minus rest
    let ⟨_, rest, h₉⟩ ← expect size (.sign .rParen) rest
    return ⟨.extend kind box function arity, rest, by simp only [List.length_cons]; omega⟩
  | (.keyword .const, span) :: rest => boxDeclaration ((.keyword .const, span) :: rest)
  | (.keyword .abstract, span) :: rest => boxDeclaration ((.keyword .abstract, span) :: rest)
  | (.keyword .refbox, span) :: rest => boxDeclaration ((.keyword .refbox, span) :: rest)
  | (.ident name, _) :: (.sign .eq, _) :: rest => do
    let ⟨value, rest, h₁⟩ ← expr size minus rest
    return ⟨.assign name value, rest, by simp only [List.length_cons]; omega⟩
  | (.ident name, _) :: (.sign .dot, _) :: (.ident field, _) :: (.sign .eq, _) :: rest => do
    let ⟨value, rest, h₁⟩ ← expr size minus rest
    return ⟨.setField name field value, rest, by simp only [List.length_cons]; omega⟩
  | [] => .error (Tokens.unexpected size [] .statement)
  | ts => expr size minus ts
termination_by (ts.length, 2)

/-- The statements before the end of a block, which is left in place. -/
def block (elseToo : Bool) (ts : Tokens) : Passing (List Node) ts :=
  match ts with
  | [] => .error (Tokens.unexpected size [] .blockEnd)
  | (token, span) :: others =>
    if endsBlock elseToo token then .ok ⟨[], (token, span) :: others, Nat.le_refl _⟩
    else do
      let ⟨first, rest, h₁⟩ ← statement ((token, span) :: others)
      let ⟨further, rest, h₂⟩ ← block elseToo rest
      return ⟨first :: further, rest, by omega⟩
termination_by (ts.length, 3)

/-- A function from its name on. -/
def routine (ts : Tokens) : Reading Routine ts := do
  let ⟨name, rest, h₁⟩ ← expectName size .functionName ts
  let ⟨params, rest, h₂⟩ ← paramList size rest
  let ⟨body, rest, h₃⟩ ← routineBody rest
  return ⟨⟨name, params, body⟩, rest, by omega⟩
termination_by (ts.length, 0)

/-- The body of a function: up to its first `return`, or up to `end`. -/
def routineBody (ts : Tokens) : Reading (List Node) ts :=
  match ts with
  | [] => .error (Tokens.unexpected size [] .bodyEnd)
  | (.keyword .endBlock, _) :: rest => .ok ⟨[], rest, Nat.lt_succ_self _⟩
  | ts => do
    let ⟨first, rest, h₁⟩ ← statement ts
    match first with
    | .giveBack value => return ⟨[.giveBack value], rest, h₁⟩
    | first =>
      let ⟨further, rest, h₂⟩ ← routineBody rest
      return ⟨first :: further, rest, by omega⟩
termination_by (ts.length, 3)

/-- A box from its modifiers on. -/
def boxDeclaration (ts : Tokens) : Reading Node ts := do
  let ⟨(isConst, isAbstract), rest, h₁⟩ := modifiers false false ts
  let ⟨_, rest, h₂⟩ ← expect size (.keyword .refbox) rest
  let ⟨name, rest, h₃⟩ ← expectName size .boxName rest
  let ⟨based, rest, h₄⟩ := accept (.sign .colon) rest
  if based then
    let ⟨base, rest, h₅⟩ ← expectName size .baseName rest
    let ⟨found, rest, h₆⟩ ← members rest
    return ⟨.box ⟨name, some base, isAbstract, isConst, found.fields, found.methods⟩, rest, by omega⟩
  else
    let ⟨found, rest, h₆⟩ ← members rest
    return ⟨.box ⟨name, none, isAbstract, isConst, found.fields, found.methods⟩, rest, by omega⟩
termination_by (ts.length, 1)

/-- The members of a box, up to its end. -/
def members (ts : Tokens) : Reading Members ts := do
  if ts.peek = some (.keyword .endBlock) then
    let ⟨_, rest, h₁⟩ ← expect size (.keyword .endBlock) ts
    return ⟨⟨[], []⟩, rest, h₁⟩
  let ⟨access, rest, h₁⟩ := memberAccess ts
  let ⟨isAbstract, rest, h₂⟩ := accept (.keyword .abstract) rest
  let ⟨isFunction, rest, h₃⟩ := accept (.keyword .function) rest
  if isFunction && isAbstract then
    let ⟨name, rest, h₄⟩ ← expectName size .functionName rest
    let ⟨params, rest, h₅⟩ ← paramList size rest
    let ⟨others, rest, h₆⟩ ← members rest
    return ⟨others.addMethod ⟨⟨name, params, []⟩, access, true⟩, rest, by omega⟩
  else if isFunction then
    let ⟨routine, rest, h₄⟩ ← routine rest
    let ⟨others, rest, h₅⟩ ← members rest
    return ⟨others.addMethod ⟨routine, access, false⟩, rest, by omega⟩
  else if isAbstract then
    throw ⟨.abstractField, rest.place size⟩
  else
    let ⟨name, rest, h₄⟩ ← expectName size .fieldName rest
    let ⟨_, rest, h₅⟩ ← expect size (.sign .eq) rest
    let ⟨init, rest, h₆⟩ ← expr size minus rest
    let ⟨others, rest, h₇⟩ ← members rest
    return ⟨others.addField ⟨name, init, access⟩, rest, by omega⟩
termination_by (ts.length, 1)
decreasing_by
  · exact Prod.Lex.left _ _ (by omega)
  · exact Prod.Lex.right' _ (by omega) (by omega)
  · exact Prod.Lex.left _ _ (by omega)
  · exact Prod.Lex.left _ _ (by omega)

end

/-! ## Whole programs -/

/-- The statements of all the tokens. -/
def statements (ts : Tokens) : Except SyntaxError Program :=
  match ts with
  | [] => .ok []
  | (token, span) :: others => do
    let ⟨first, rest, _h⟩ ← statement size minus ((token, span) :: others)
    let further ← statements rest
    return first :: further
termination_by ts.length
decreasing_by exact _h

end Grammar

/-- The program that a source text is. -/
def Program.ofSource (source : String) : Except SyntaxError Program := do
  let tokens ← Token.scan source
  statements source.utf8ByteSize negated tokens

theorem ofSource_of_scan {source : String} {ts : Tokens} (h : Token.scan source = .ok ts) :
    Program.ofSource source = statements source.utf8ByteSize negated ts := by
  rw [Program.ofSource, h]
  rfl

end BoxScript
