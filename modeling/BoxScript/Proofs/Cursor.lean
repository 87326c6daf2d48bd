import BoxScript.Node.Parser
import BoxScript.Proofs.Metered

/-!
# The grammar from a position

A second account of the parser in `BoxScript.Node.Parser`, with a position in a row of tokens that
stays as it is. A cursor looks at the token at the position, or a few tokens further, and moves the
position on. Nothing keeps the position within the row or makes a loop end: `skip` adds to the
position whatever stands there, and the loops have no measure. What bounds them is fuel, a piece of
which goes into each call and each round of a loop; where it is used up there is no outcome. A loop
that does not end has therefore no outcome, however much fuel there is.
-/

namespace BoxScript

/-- A parser that goes on from a position, which is the number that it keeps. -/
abbrev Cursor (α : Type) := Metered SyntaxError α

namespace Cursor

open Metered (stuck)

section Grammar

/- The source is `size` bytes long, and `minus` is the tree that a minus sign makes of its
operand. -/
variable (size : Nat) (minus : Node → Node) (tokens : Tokens)

/-! ## Single tokens -/

/-- The token so many places behind the position. -/
def ahead (k : Nat) : Cursor (Option Token) := do
  return tokens[(← get) + k]?.map (·.1)

/-- The token at the position. -/
def peek : Cursor (Option Token) := ahead tokens 0

/-- The place of the token at the position, or the end of the source. -/
def place : Cursor Span := do
  match tokens[← get]? with
  | some (_, span) => return span
  | none => return .point size

/-- Move the position on. -/
def skip (k : Nat) : Cursor Unit := modify (· + k)

/-- Take whatever token is there. -/
def advance : Cursor (Option Token) := do
  let token ← peek tokens
  if token.isSome then
    skip 1
  return token

/-- The error of meeting the token at the position where something else is wanted. -/
def unexpected {α : Type} (wanted : Wanted) : Cursor α := do
  throw ⟨.unexpected (← peek tokens) wanted, ← place size tokens⟩

/-- Take the token `t` if it stands at the position, and say whether it did. -/
def eat (t : Token) : Cursor Bool := do
  if (← peek tokens) = some t then
    skip 1
    return true
  else
    return false

/-- Take the token `t`. -/
def expect (t : Token) : Cursor Unit := do
  if ← eat tokens t then
    return ()
  else
    unexpected size tokens (.token t)

/-- Take a name. -/
def expectName (wanted : Wanted) : Cursor String := do
  match ← peek tokens with
  | some (.ident name) =>
    skip 1
    return name
  | _ => unexpected size tokens wanted

/-! ## Parameters and modifiers -/

/-- Parameter names up to the closing parenthesis. -/
def paramNames : Nat → Cursor (List String)
  | 0 => stuck
  | fuel + 1 => do
    let name ← expectName size tokens .parameterName
    if ← eat tokens (.sign .comma) then
      return name :: (← paramNames fuel)
    else
      expect size tokens (.sign .rParen)
      return [name]

/-- A parameter list in its parentheses. -/
def paramList (fuel : Nat) : Cursor (List String) := do
  expect size tokens (.sign .lParen)
  if ← eat tokens (.sign .rParen) then
    return []
  else
    paramNames size tokens fuel

/-- The words `const` and `abstract` before a box. -/
def modifiers (isConst isAbstract : Bool) : Nat → Cursor (Bool × Bool)
  | 0 => stuck
  | fuel + 1 => do
    if ← eat tokens (.keyword .const) then
      modifiers true isAbstract fuel
    else if ← eat tokens (.keyword .abstract) then
      modifiers isConst true fuel
    else
      return (isConst, isAbstract)

/-- Whether `guarded` or `exposed` stands before a member. -/
def memberAccess : Cursor Access := do
  if ← eat tokens (.keyword .guarded) then
    return .guarded
  else
    let _ ← eat tokens (.keyword .exposed)
    return .exposed

/-- An abstract function from its name on: it has no body. -/
def prototype (fuel : Nat) : Cursor Routine := do
  let name ← expectName size tokens .functionName
  let params ← paramList size tokens fuel
  return ⟨name, params, []⟩

/-! ## Expressions -/

mutual

/-- An expression. -/
def expr : Nat → Cursor Node
  | 0 => stuck
  | fuel + 1 => tier .logic fuel

/-- An expression whose operators are no looser than the tier. -/
def tier (t : Tier) : Nat → Cursor Node
  | 0 => stuck
  | fuel + 1 =>
    if t = .unary then unary fuel
    else do
      let left ← tier t.tighter fuel
      operators t left fuel

/-- The operators of a tier that follow `left`, with their right operands. -/
def operators (t : Tier) (left : Node) : Nat → Cursor Node
  | 0 => stuck
  | fuel + 1 => do
    match (← peek tokens).bind t.op? with
    | none => return left
    | some op =>
      skip 1
      let right ← tier t.tighter fuel
      operators t (.binary op left right) fuel

/-- An operand with the minus signs before it. -/
def unary : Nat → Cursor Node
  | 0 => stuck
  | fuel + 1 => do
    if ← eat tokens (.sign .minus) then
      return minus (← unary fuel)
    else
      let node ← primary fuel
      applied node fuel

/-- Indices, extensions and members that are applied to `node`. -/
def applied (node : Node) : Nat → Cursor Node
  | 0 => stuck
  | fuel + 1 => do
    if ← eat tokens (.sign .lBracket) then
      let position ← expr fuel
      expect size tokens (.sign .rBracket)
      applied (.index node position) fuel
    else if ← eat tokens (.sign .colon) then
      let name ← expectName size tokens .extensionName
      if (← peek tokens) = some (.sign .lParen) then
        let args ← arguments fuel
        applied (.extension node name args) fuel
      else
        applied (.extension node name []) fuel
    else if (← peek tokens) = some (.sign .dot) then
      let dot ← place size tokens
      expect size tokens (.sign .dot)
      let name ← expectName size tokens .memberName
      if (← peek tokens) = some (.sign .lParen) then
        let args ← arguments fuel
        let member ← MonadExcept.ofExcept (memberCall dot node ⟨name, args⟩)
        applied member fuel
      else
        let member ← MonadExcept.ofExcept (memberField dot node name)
        applied member fuel
    else
      return node

/-- An argument list in its parentheses. -/
def arguments : Nat → Cursor (List Node)
  | 0 => stuck
  | fuel + 1 => do
    expect size tokens (.sign .lParen)
    items .rParen fuel

/-- Expressions with commas between them, up to the closing sign; there may be none. -/
def items (close : Sign) : Nat → Cursor (List Node)
  | 0 => stuck
  | fuel + 1 => do
    if ← eat tokens (.sign close) then
      return []
    else
      moreItems close fuel

/-- Expressions with commas between them, up to the closing sign; at least one. -/
def moreItems (close : Sign) : Nat → Cursor (List Node)
  | 0 => stuck
  | fuel + 1 => do
    let item ← expr fuel
    if ← eat tokens (.sign .comma) then
      return item :: (← moreItems close fuel)
    else
      expect size tokens (.sign close)
      return [item]

/-- An expression in parentheses. -/
def inParens : Nat → Cursor Node
  | 0 => stuck
  | fuel + 1 => do
    expect size tokens (.sign .lParen)
    let node ← expr fuel
    expect size tokens (.sign .rParen)
    return node

/-- An expression that no operator is applied to. -/
def primary : Nat → Cursor Node
  | 0 => stuck
  | fuel + 1 => do
    let start ← place size tokens
    match ← advance tokens with
    | none => unexpected size tokens .expression
    | some (.int n) => return .int n
    | some (.str s) => return .str s
    | some (.ident name) =>
      if (← peek tokens) = some (.sign .lParen) then
        return .call name (← arguments fuel)
      else
        return .var name
    | some (.sign sign) =>
      match sign with
      | .lParen =>
        let node ← expr fuel
        expect size tokens (.sign .rParen)
        return node
      | .lBracket => return .array (← items .rBracket fuel)
      | _ => throw ⟨.unexpected (some (.sign sign)) .expression, start⟩
    | some (.keyword keyword) =>
      match keyword with
      | .create => return .create (← expectName size tokens .boxName)
      | .input => return .input
      | .readFile => return .readLines (← inParens fuel)
      | .readWholeFile => return .readText (← inParens fuel)
      | .fileExists => return .fileExists (← inParens fuel)
      | _ => throw ⟨.unexpected (some (.keyword keyword)) .expression, start⟩

end

/-! ## Statements -/

/-- The declaration of an extension. -/
def extension (fuel : Nat) : Cursor Node := do
  expect size tokens (.keyword .extension)
  expect size tokens (.sign .lParen)
  let kind ← expr size minus tokens fuel
  expect size tokens (.sign .comma)
  let box ← expr size minus tokens fuel
  expect size tokens (.sign .comma)
  let function ← expr size minus tokens fuel
  expect size tokens (.sign .comma)
  let arity ← expr size minus tokens fuel
  expect size tokens (.sign .rParen)
  return .extend kind box function arity

mutual

/-- A statement. -/
def statement : Nat → Cursor Node
  | 0 => stuck
  | fuel + 1 => do
    match ← peek tokens with
    | some (.keyword .function) =>
      skip 1
      return .function (← routine fuel)
    | some (.keyword .giveBack) =>
      skip 1
      if ← eat tokens (.keyword .void) then
        return .giveBack none
      else
        return .giveBack (some (← expr size minus tokens fuel))
    | some (.keyword .print) =>
      skip 1
      return .print (← expr size minus tokens fuel) true
    | some (.keyword .printInline) =>
      skip 1
      return .print (← expr size minus tokens fuel) false
    | some (.keyword .ifThen) => branch fuel
    | some (.keyword .whileDo) =>
      skip 1
      let condition ← expr size minus tokens fuel
      let body ← block false fuel
      expect size tokens (.keyword .endBlock)
      return .whileDo condition body
    | some (.keyword .forDo) => counted fuel
    | some (.keyword .raise) =>
      skip 1
      return .raise (← expr size minus tokens fuel)
    | some (.keyword .importScript) =>
      skip 1
      return .importScript (← expr size minus tokens fuel)
    | some (.keyword .extension) => extension size minus tokens fuel
    | some (.keyword .const) | some (.keyword .abstract) | some (.keyword .refbox) =>
      boxDeclaration fuel
    | some (.ident name) =>
      match ← ahead tokens 1, ← ahead tokens 2, ← ahead tokens 3 with
      | some (.sign .eq), _, _ =>
        skip 2
        return .assign name (← expr size minus tokens fuel)
      | some (.sign .dot), some (.ident field), some (.sign .eq) =>
        skip 4
        return .setField name field (← expr size minus tokens fuel)
      | _, _, _ => expr size minus tokens fuel
    | some _ => expr size minus tokens fuel
    | none => unexpected size tokens .statement

/-- The statements before the end of a block, which is left in place. -/
def block (elseToo : Bool) : Nat → Cursor (List Node)
  | 0 => stuck
  | fuel + 1 => do
    match ← peek tokens with
    | some token =>
      if endsBlock elseToo token then
        return []
      else
        let first ← statement fuel
        return first :: (← block elseToo fuel)
    | none => unexpected size tokens .blockEnd

/-- A branch from its `if` on. -/
def branch : Nat → Cursor Node
  | 0 => stuck
  | fuel + 1 => do
    expect size tokens (.keyword .ifThen)
    let condition ← expr size minus tokens fuel
    let yes ← block true fuel
    if ← eat tokens (.keyword .otherwise) then
      let no ← block false fuel
      expect size tokens (.keyword .endBlock)
      return .ifElse condition yes (some no)
    else
      expect size tokens (.keyword .endBlock)
      return .ifElse condition yes none

/-- A loop with clauses from its `for` on. -/
def counted : Nat → Cursor Node
  | 0 => stuck
  | fuel + 1 => do
    expect size tokens (.keyword .forDo)
    let init ← statement fuel
    expect size tokens (.sign .semi)
    let condition ← expr size minus tokens fuel
    expect size tokens (.sign .semi)
    let increment ← statement fuel
    let body ← block false fuel
    expect size tokens (.keyword .endBlock)
    return .forDo init condition increment body

/-- A function from its name on. -/
def routine : Nat → Cursor Routine
  | 0 => stuck
  | fuel + 1 => do
    let name ← expectName size tokens .functionName
    let params ← paramList size tokens fuel
    let body ← routineBody fuel
    return ⟨name, params, body⟩

/-- The body of a function: up to its first `return`, or up to `end`. -/
def routineBody : Nat → Cursor (List Node)
  | 0 => stuck
  | fuel + 1 => do
    if ← eat tokens (.keyword .endBlock) then
      return []
    else if (← peek tokens).isNone then
      unexpected size tokens .bodyEnd
    else
      match ← statement fuel with
      | .giveBack value => return [.giveBack value]
      | first => return first :: (← routineBody fuel)

/-- A box from its modifiers on. -/
def boxDeclaration : Nat → Cursor Node
  | 0 => stuck
  | fuel + 1 => do
    let (isConst, isAbstract) ← modifiers tokens false false fuel
    expect size tokens (.keyword .refbox)
    let name ← expectName size tokens .boxName
    if ← eat tokens (.sign .colon) then
      let base ← expectName size tokens .baseName
      let found ← members fuel
      return .box ⟨name, some base, isAbstract, isConst, found.fields, found.methods⟩
    else
      let found ← members fuel
      return .box ⟨name, none, isAbstract, isConst, found.fields, found.methods⟩

/-- The members of a box, up to its end. -/
def members : Nat → Cursor Members
  | 0 => stuck
  | fuel + 1 => do
    if ← eat tokens (.keyword .endBlock) then
      return ⟨[], []⟩
    else
      let access ← memberAccess tokens
      let isAbstract ← eat tokens (.keyword .abstract)
      if ← eat tokens (.keyword .function) then
        let routine ← if isAbstract then prototype size tokens fuel else routine fuel
        let others ← members fuel
        return others.addMethod ⟨routine, access, isAbstract⟩
      else if isAbstract then
        throw ⟨.abstractField, ← place size tokens⟩
      else
        let name ← expectName size tokens .fieldName
        expect size tokens (.sign .eq)
        let init ← expr size minus tokens fuel
        let others ← members fuel
        return others.addField ⟨name, init, access⟩

end

/-- The statements of all the tokens from the position on. -/
def program : Nat → Cursor Program
  | 0 => stuck
  | fuel + 1 => do
    if (← peek tokens).isSome then
      let first ← statement size minus tokens fuel
      return first :: (← program fuel)
    else
      return []

end Grammar
end Cursor
end BoxScript
