import BoxScript.Proofs.Parsing

/-!
# Programs as tokens

The tokens that a tree is written with, and no more parentheses than its operators need: an operand
is put in parentheses where it is looser than its place allows. The left operand of an operator may
be as loose as the operator, the right one has to be tighter, and what an index or an extension is
applied to has to be tighter than any operator. A function that ends in a `return` is written
without `end`.
-/

namespace BoxScript

/-! ## Operators -/

/-- The sign of an operator. -/
def BinOp.sign : BinOp → Sign
  | .add => .plus
  | .sub => .minus
  | .mul => .star
  | .div => .slash
  | .mod => .percent
  | .pow => .starStar
  | .gt => .gt
  | .ge => .gtEq
  | .lt => .lt
  | .le => .ltEq
  | .eq => .eqEq
  | .ne => .notEq
  | .and => .andAnd
  | .or => .orOr

/-- The tier of an operator. -/
def BinOp.tier : BinOp → Tier
  | .mul | .div | .mod | .pow => .product
  | .add | .sub => .sum
  | .gt | .ge | .lt | .le | .eq | .ne => .comparison
  | .and | .or => .logic

theorem BinOp.op?_sign (op : BinOp) : op.tier.op? (.sign op.sign) = some op := by cases op <;> rfl

/-- Only the sign of an operator stands for it. -/
theorem BinOp.of_op? {t : Tier} {u : Token} {op : BinOp} (h : t.op? u = some op) :
    t = op.tier ∧ u = .sign op.sign := by
  unfold Tier.op? at h
  split at h <;> cases h <;> exact ⟨rfl, rfl⟩

theorem BinOp.tier_ne_unary (op : BinOp) : op.tier ≠ .unary := by cases op <;> nofun

/-- How loose the operators of a tree are: none at all, a minus sign, or those of a tier. -/
def Node.looseness : Node → Nat
  | .int n => if n < 0 then 1 else 0
  | .negate _ => 1
  | .binary op _ _ => op.tier.rank + 1
  | _ => 0

/-- The tokens `w` of a tree, in parentheses if the tree is looser than `k`. -/
def wrapped (k : Nat) (node : Node) (w : List Token) : List Token :=
  if node.looseness ≤ k then w else .sign .lParen :: (w ++ [.sign .rParen])

/-- Whether a statement is a `return`. -/
def Node.isReturn : Node → Bool
  | .giveBack _ => true
  | _ => false

/-! ## Words -/

/-- The word for an access. -/
def Access.word : Access → Token
  | .exposed => .keyword .exposed
  | .guarded => .keyword .guarded

/-- The words before a box. -/
def modifierWords (isConst isAbstract : Bool) : List Token :=
  (if isConst then [.keyword .const] else []) ++ (if isAbstract then [.keyword .abstract] else [])

/-- What a call of a method is on. -/
def Receiver.words : Receiver → List Token
  | .named holder => [.ident holder]
  | .created box => [.keyword .create, .ident box]

mutual

/-- The tokens of a tree. -/
def Node.words : Node → List Token
  | .int n => if n < 0 then [.sign .minus, .int (-n)] else [.int n]
  | .str s => [.str s]
  | .var name => [.ident name]
  | .assign name value => .ident name :: .sign .eq :: value.words
  | .binary op left right =>
    wrapped (op.tier.rank + 1) left left.words
      ++ .sign op.sign :: wrapped op.tier.rank right right.words
  | .negate operand => .sign .minus :: wrapped 1 operand operand.words
  | .print value newline => .keyword (if newline then .print else .printInline) :: value.words
  | .function routine => .keyword .function :: routine.words
  | .call name args => .ident name :: .sign .lParen :: itemWords .rParen args
  | .ifElse condition yes no =>
    .keyword .ifThen :: (condition.words ++ (blockWords yes ++ elseWords no))
  | .whileDo condition body =>
    .keyword .whileDo :: (condition.words ++ (blockWords body ++ [.keyword .endBlock]))
  | .forDo init condition increment body =>
    .keyword .forDo :: (init.words ++ .sign .semi :: (condition.words ++ .sign .semi ::
      (increment.words ++ (blockWords body ++ [.keyword .endBlock]))))
  | .giveBack value => .keyword .giveBack :: resultWords value
  | .input => [.keyword .input]
  | .array items => .sign .lBracket :: itemWords .rBracket items
  | .index target position =>
    wrapped 0 target target.words ++ .sign .lBracket :: (position.words ++ [.sign .rBracket])
  | .extension target name args =>
    wrapped 0 target target.words
      ++ .sign .colon :: .ident name :: .sign .lParen :: itemWords .rParen args
  | .box declaration => declaration.words
  | .create box => [.keyword .create, .ident box]
  | .field holder field => [.ident holder, .sign .dot, .ident field]
  | .setField holder field value =>
    .ident holder :: .sign .dot :: .ident field :: .sign .eq :: value.words
  | .method receiver first further => receiver.words ++ (first.words ++ chainWords further)
  | .raise message => .keyword .raise :: message.words
  | .importScript path => .keyword .importScript :: path.words
  | .readLines path => .keyword .readFile :: .sign .lParen :: (path.words ++ [.sign .rParen])
  | .readText path => .keyword .readWholeFile :: .sign .lParen :: (path.words ++ [.sign .rParen])
  | .fileExists path => .keyword .fileExists :: .sign .lParen :: (path.words ++ [.sign .rParen])
  | .extend kind box function arity =>
    .keyword .extension :: .sign .lParen :: (kind.words ++ .sign .comma :: (box.words ++
      .sign .comma :: (function.words ++ .sign .comma :: (arity.words ++ [.sign .rParen]))))

/-- Expressions with commas between them, and the closing sign. -/
def itemWords (close : Sign) : List Node → List Token
  | [] => [.sign close]
  | item :: items =>
    item.words ++ if items.isEmpty then [.sign close] else .sign .comma :: itemWords close items

/-- Statements in order. -/
def blockWords : List Node → List Token
  | [] => []
  | node :: nodes => node.words ++ blockWords nodes

/-- The other branch, if there is one, and the end of both. -/
def elseWords : Option (List Node) → List Token
  | none => [.keyword .endBlock]
  | some no => .keyword .otherwise :: (blockWords no ++ [.keyword .endBlock])

/-- What is given back. -/
def resultWords : Option Node → List Token
  | none => [.keyword .void]
  | some value => value.words

/-- The statements of a function, and its end where the last of them is no `return`. -/
def bodyWords : List Node → List Token
  | [] => [.keyword .endBlock]
  | node :: nodes =>
    node.words ++ if node.isReturn && nodes.isEmpty then [] else bodyWords nodes

/-- A function from its name on. -/
def Routine.words : Routine → List Token
  | ⟨name, params, body⟩ => .ident name :: (paramWords params ++ bodyWords body)

/-- A call of a method, from the dot on. -/
def Invocation.words : Invocation → List Token
  | ⟨name, args⟩ => .sign .dot :: .ident name :: .sign .lParen :: itemWords .rParen args

/-- Calls in a row. -/
def chainWords : List Invocation → List Token
  | [] => []
  | call :: calls => call.words ++ chainWords calls

/-- A field of a box. -/
def FieldDecl.words : FieldDecl → List Token
  | ⟨name, init, access⟩ => access.word :: .ident name :: .sign .eq :: init.words

/-- The fields of a box. -/
def fieldWords : List FieldDecl → List Token
  | [] => []
  | field :: fields => field.words ++ fieldWords fields

/-- A function of a box. An abstract one has no body. -/
def MethodDecl.words : MethodDecl → List Token
  | ⟨routine, access, isAbstract⟩ =>
    access.word :: if isAbstract
      then .keyword .abstract :: .keyword .function :: .ident routine.name
        :: paramWords routine.params
      else .keyword .function :: routine.words

/-- The functions of a box. -/
def methodWords : List MethodDecl → List Token
  | [] => []
  | method :: methods => method.words ++ methodWords methods

/-- A box from its modifiers on. -/
def BoxDecl.words : BoxDecl → List Token
  | ⟨name, base, isAbstract, isConst, fields, methods⟩ =>
    modifierWords isConst isAbstract ++ .keyword .refbox :: .ident name :: (baseWords base
      ++ (fieldWords fields ++ (methodWords methods ++ [.keyword .endBlock])))

end

/-! ## Statements in a row -/

/-- The tokens that could go on with an expression before them though a statement begins with
them. -/
def Token.opens : Token → Bool
  | .sign .lParen | .sign .lBracket | .sign .minus => true
  | _ => false

/-- The statements in a row inside a statement. With each row it says whether no expression can
stand before it. -/
def Node.rows : Node → List (Bool × List Node)
  | .function routine => [(true, routine.body)]
  | .ifElse _ yes no => [(false, yes), (true, no.getD [])]
  | .whileDo _ body => [(false, body)]
  | .forDo init _ increment body => [(true, [init]), (true, [increment]), (false, body)]
  | .box declaration => declaration.methods.map fun method => (true, method.routine.body)
  | _ => []

/-- No statement goes on with an expression before it: a statement of the row begins with none of
the tokens that could, and neither does one of the rows inside. The first statement of a row may
begin with any token if the row is `free`. -/
inductive Clear : Bool → List Node → Prop
  | nil {free : Bool} : Clear free []
  | cons {free : Bool} {node : Node} {nodes : List Node}
    (hopens : free = true ∨ ∀ u ∈ node.words.head?, u.opens = false)
    (hrows : ∀ row ∈ node.rows, Clear row.1 row.2) (hfurther : Clear false nodes) :
    Clear free (node :: nodes)

end BoxScript
