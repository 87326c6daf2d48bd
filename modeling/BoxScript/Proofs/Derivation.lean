import BoxScript.Proofs.Grammar
import Mathlib.Data.List.Basic

/-!
# Derivations

The grammar of programs as a relation, without any parser. `Derives` says that a row of tokens is a
phrase of some kind and which tree it stands for. Each rule puts the tokens of a phrase together
from those of its parts, in their order and side by side, so a derivation takes every token into
account, and each part of the tree stands for tokens in a row.

Statements have no separators. Where a phrase ends is settled by the token after it, so that is a
part of the relation: `Derives ph w next` holds of the tokens `w` before the token `next`, or at the
end of the source if there is none. The operators of a tier, and what is applied to a primary
expression, are taken one after the other from left to right.
-/

namespace BoxScript

/-- The tokens without their places. -/
def Tokens.words (ts : Tokens) : List Token := ts.map (·.1)

@[simp] theorem Tokens.words_cons (t : Token) (s : Span) (ts : Tokens) :
    Tokens.words ((t, s) :: ts) = t :: ts.words := rfl

theorem Tokens.of_words_cons {ts : Tokens} {t : Token} {us : List Token}
    (h : ts.words = t :: us) : ∃ s, ∃ rest : Tokens, ts = (t, s) :: rest ∧ rest.words = us := by
  cases ts with
  | nil => cases h
  | cons front rest =>
    cases h
    exact ⟨front.2, rest, rfl, rfl⟩

theorem Tokens.peek_eq (ts : Tokens) : ts.peek = ts.words.head? := by
  cases ts <;> rfl

/-! ## Tokens in certain places -/

/-- The tokens that something more is applied with to a primary expression. -/
def Token.applies : Token → Bool
  | .sign .lBracket | .sign .colon | .sign .dot => true
  | _ => false

/-- The words for a statement with one expression, and the trees of such statements. -/
def Keyword.command? : Keyword → Option (Node → Node)
  | .giveBack => some fun value => .giveBack (some value)
  | .print => some fun value => .print value true
  | .printInline => some fun value => .print value false
  | .raise => some .raise
  | .importScript => some .importScript
  | _ => none

/-- The words for a look at a file, and their trees. -/
def Keyword.reader? : Keyword → Option (Node → Node)
  | .readFile => some .readLines
  | .readWholeFile => some .readText
  | .fileExists => some .fileExists
  | _ => none

/-- What a call of a member on an expression stands for, if it is one of those that have members. -/
def Node.called? (call : Invocation) : Node → Option Node
  | .var holder => some (.method (.named holder) call [])
  | .create name => some (.method (.created name) call [])
  | .method receiver first further => some (.method receiver first (further ++ [call]))
  | _ => none

/-- Whether these tokens begin an assignment. -/
def startsAssignment : List Token → Bool
  | .ident _ :: .sign .eq :: _ => true
  | .ident _ :: .sign .dot :: .ident _ :: .sign .eq :: _ => true
  | _ => false

/-- Parameter names with commas between them, and the closing parenthesis. -/
def nameWords : List String → List Token
  | [] => [.sign .rParen]
  | [name] => [.ident name, .sign .rParen]
  | name :: names => .ident name :: .sign .comma :: nameWords names

/-- A parameter list in its parentheses. -/
def paramWords (params : List String) : List Token := .sign .lParen :: nameWords params

/-- The name of a base with the colon before it, or nothing. -/
def baseWords : Option String → List Token
  | some base => [.sign .colon, .ident base]
  | none => []

/-- The word for an access. The one for everyone may be left out. -/
inductive AccessWord : Access → List Token → Prop
  | guarded : AccessWord .guarded [.keyword .guarded]
  | exposed : AccessWord .exposed [.keyword .exposed]
  | unsaid : AccessWord .exposed []

/-- The words before a box: `const` and `abstract`, each of them at most once and in that order. -/
def PlainModifiers (w : List Token) : Prop :=
  w ∈ [[], [.keyword .const], [.keyword .abstract], [.keyword .const, .keyword .abstract]]

/-- The words before a box: `const` and `abstract` in any order and number. -/
def AnyModifiers (w : List Token) : Prop :=
  ∀ t ∈ w, t = .keyword .const ∨ t = .keyword .abstract

/-- The token that stands at the front where `w` stands and then `next`. -/
def ahead (w : List Token) (next : Option Token) : Option Token := w.head?.or next

/-! ## The grammar -/

/-- The phrases of the grammar, each with what it stands for. -/
inductive Phrase where
  /-- An expression whose operators are no looser than the tier. -/
  | tier (t : Tier) (node : Node)
  /-- The operands of a tier with the operators between them, up to one of them. -/
  | operands (t : Tier) (node : Node)
  /-- A primary expression with what is applied to it, up to one application. -/
  | applied (node : Node)
  | primary (node : Node)
  | optionalArgs (args : Option (List Node))
  /-- Expressions with commas between them, and the closing sign. -/
  | items (close : Sign) (nodes : List Node)
  /-- The same, with at least one expression. -/
  | moreItems (close : Sign) (nodes : List Node)
  | statement (node : Node)
  | block (nodes : List Node)
  | routine (r : Routine)
  /-- The statements of a function, with the word that ends them if there is one. -/
  | body (nodes : List Node)
  /-- The members of a box, and its end. -/
  | members (ms : Members)

/-- An expression. -/
abbrev Phrase.expr (node : Node) : Phrase := .tier .logic node

/-- The tokens `w` are a phrase when `next` stands behind them. A minus sign makes the tree `minus`
of its operand's, and `mods` says what may stand before a box. -/
inductive Derives (minus : Node → Node) (mods : List Token → Prop) :
    Phrase → List Token → Option Token → Prop
  -- operators
  | minus {operand node : Node} {w : List Token} {next : Option Token}
    (h : Derives minus mods (.tier .unary operand) w next) (hnode : node = minus operand) :
    Derives minus mods (.tier .unary node) (.sign .minus :: w) next
  | unary {node : Node} {w : List Token} {next : Option Token}
    (h : Derives minus mods (.applied node) w next) (hends : ∀ u ∈ next, u.applies = false) :
    Derives minus mods (.tier .unary node) w next
  | tier {t : Tier} {node : Node} {w : List Token} {next : Option Token}
    (h : Derives minus mods (.operands t node) w next) (hends : ∀ u ∈ next, t.op? u = none) :
    Derives minus mods (.tier t node) w next
  | operand {t : Tier} {node : Node} {w : List Token} {next : Option Token} (ht : t ≠ .unary)
    (h : Derives minus mods (.tier t.tighter node) w next) :
    Derives minus mods (.operands t node) w next
  | operator {t : Tier} {token : Token} {op : BinOp} {left right : Node} {w w' : List Token}
    {next : Option Token} (hleft : Derives minus mods (.operands t left) w (some token))
    (hop : t.op? token = some op) (hright : Derives minus mods (.tier t.tighter right) w' next) :
    Derives minus mods (.operands t (.binary op left right)) (w ++ token :: w') next
  -- what is applied to an expression
  | applied {node : Node} {w : List Token} {next : Option Token}
    (h : Derives minus mods (.primary node) w next) : Derives minus mods (.applied node) w next
  | index {target position : Node} {w w' : List Token} {next : Option Token}
    (htarget : Derives minus mods (.applied target) w (some (.sign .lBracket)))
    (hposition : Derives minus mods (.expr position) w' (some (.sign .rBracket))) :
    Derives minus mods (.applied (.index target position))
      (w ++ .sign .lBracket :: (w' ++ [.sign .rBracket])) next
  | extension {target : Node} {name : String} {args : Option (List Node)} {w w' : List Token}
    {next : Option Token} (htarget : Derives minus mods (.applied target) w (some (.sign .colon)))
    (hargs : Derives minus mods (.optionalArgs args) w' next) :
    Derives minus mods (.applied (.extension target name (args.getD [])))
      (w ++ .sign .colon :: .ident name :: w') next
  | field {holder name : String} {w : List Token} {next : Option Token}
    (hholder : Derives minus mods (.applied (.var holder)) w (some (.sign .dot)))
    (hends : next ≠ some (.sign .lParen)) :
    Derives minus mods (.applied (.field holder name)) (w ++ [.sign .dot, .ident name]) next
  | method {target node : Node} {name : String} {args : List Node} {w w' : List Token}
    {next : Option Token} (htarget : Derives minus mods (.applied target) w (some (.sign .dot)))
    (hargs : Derives minus mods (.items .rParen args) w' next)
    (hcall : target.called? ⟨name, args⟩ = some node) :
    Derives minus mods (.applied node)
      (w ++ .sign .dot :: .ident name :: .sign .lParen :: w') next
  | noArgs {next : Option Token} (hends : next ≠ some (.sign .lParen)) :
    Derives minus mods (.optionalArgs none) [] next
  | args {args : List Node} {w : List Token} {next : Option Token}
    (h : Derives minus mods (.items .rParen args) w next) :
    Derives minus mods (.optionalArgs (some args)) (.sign .lParen :: w) next
  | noItems {close : Sign} {next : Option Token} :
    Derives minus mods (.items close []) [.sign close] next
  | items {close : Sign} {nodes : List Node} {w : List Token} {next : Option Token}
    (h : Derives minus mods (.moreItems close nodes) w next) :
    Derives minus mods (.items close nodes) w next
  | lastItem {close : Sign} {node : Node} {w : List Token} {next : Option Token}
    (h : Derives minus mods (.expr node) w (some (.sign close))) :
    Derives minus mods (.moreItems close [node]) (w ++ [.sign close]) next
  | moreItems {close : Sign} {node : Node} {nodes : List Node} {w w' : List Token}
    {next : Option Token} (h : Derives minus mods (.expr node) w (some (.sign .comma)))
    (hmore : Derives minus mods (.moreItems close nodes) w' next) :
    Derives minus mods (.moreItems close (node :: nodes)) (w ++ .sign .comma :: w') next
  -- primary expressions
  | int (n : Int64) {next : Option Token} : Derives minus mods (.primary (.int n)) [.int n] next
  | str (s : String) {next : Option Token} : Derives minus mods (.primary (.str s)) [.str s] next
  | var (name : String) {next : Option Token} (hends : next ≠ some (.sign .lParen)) :
    Derives minus mods (.primary (.var name)) [.ident name] next
  | call (name : String) {args : List Node} {w : List Token} {next : Option Token}
    (h : Derives minus mods (.items .rParen args) w next) :
    Derives minus mods (.primary (.call name args)) (.ident name :: .sign .lParen :: w) next
  | parens {node : Node} {w : List Token} {next : Option Token}
    (h : Derives minus mods (.expr node) w (some (.sign .rParen))) :
    Derives minus mods (.primary node) (.sign .lParen :: (w ++ [.sign .rParen])) next
  | array {elements : List Node} {w : List Token} {next : Option Token}
    (h : Derives minus mods (.items .rBracket elements) w next) :
    Derives minus mods (.primary (.array elements)) (.sign .lBracket :: w) next
  | create (box : String) {next : Option Token} :
    Derives minus mods (.primary (.create box)) [.keyword .create, .ident box] next
  | input {next : Option Token} : Derives minus mods (.primary .input) [.keyword .input] next
  | reader {k : Keyword} {f : Node → Node} {path node : Node} {w : List Token}
    {next : Option Token} (hk : k.reader? = some f)
    (h : Derives minus mods (.expr path) w (some (.sign .rParen))) (hnode : node = f path) :
    Derives minus mods (.primary node)
      (.keyword k :: .sign .lParen :: (w ++ [.sign .rParen])) next
  -- statements
  | function {r : Routine} {w : List Token} {next : Option Token}
    (h : Derives minus mods (.routine r) w next) :
    Derives minus mods (.statement (.function r)) (.keyword .function :: w) next
  | giveBackNone {next : Option Token} : Derives minus mods (.statement (.giveBack none))
      [.keyword .giveBack, .keyword .void] next
  | command {k : Keyword} {f : Node → Node} {value node : Node} {w : List Token}
    {next : Option Token} (hk : k.command? = some f)
    (h : Derives minus mods (.expr value) w next) (hnode : node = f value) :
    Derives minus mods (.statement node) (.keyword k :: w) next
  | ifThen {condition : Node} {yes : List Node} {w w' : List Token} {next : Option Token}
    (hcondition : Derives minus mods (.expr condition) w (ahead w' (some (.keyword .endBlock))))
    (hyes : Derives minus mods (.block yes) w' (some (.keyword .endBlock))) :
    Derives minus mods (.statement (.ifElse condition yes none))
      (.keyword .ifThen :: (w ++ (w' ++ [.keyword .endBlock]))) next
  | ifElse {condition : Node} {yes no : List Node} {w w' w'' : List Token} {next : Option Token}
    (hcondition : Derives minus mods (.expr condition) w (ahead w' (some (.keyword .otherwise))))
    (hyes : Derives minus mods (.block yes) w' (some (.keyword .otherwise)))
    (hno : Derives minus mods (.block no) w'' (some (.keyword .endBlock))) :
    Derives minus mods (.statement (.ifElse condition yes (some no)))
      (.keyword .ifThen :: (w ++ (w' ++ .keyword .otherwise :: (w'' ++ [.keyword .endBlock]))))
      next
  | whileDo {condition : Node} {body : List Node} {w w' : List Token} {next : Option Token}
    (hcondition : Derives minus mods (.expr condition) w (ahead w' (some (.keyword .endBlock))))
    (hbody : Derives minus mods (.block body) w' (some (.keyword .endBlock))) :
    Derives minus mods (.statement (.whileDo condition body))
      (.keyword .whileDo :: (w ++ (w' ++ [.keyword .endBlock]))) next
  | forDo {init condition increment : Node} {body : List Node} {w₁ w₂ w₃ w₄ : List Token}
    {next : Option Token} (hinit : Derives minus mods (.statement init) w₁ (some (.sign .semi)))
    (hcondition : Derives minus mods (.expr condition) w₂ (some (.sign .semi)))
    (hincrement : Derives minus mods (.statement increment) w₃
      (ahead w₄ (some (.keyword .endBlock))))
    (hbody : Derives minus mods (.block body) w₄ (some (.keyword .endBlock))) :
    Derives minus mods (.statement (.forDo init condition increment body))
      (.keyword .forDo :: (w₁ ++ .sign .semi :: (w₂ ++ .sign .semi ::
        (w₃ ++ (w₄ ++ [.keyword .endBlock]))))) next
  | extend {kind box function arity : Node} {w₁ w₂ w₃ w₄ : List Token} {next : Option Token}
    (hkind : Derives minus mods (.expr kind) w₁ (some (.sign .comma)))
    (hbox : Derives minus mods (.expr box) w₂ (some (.sign .comma)))
    (hfunction : Derives minus mods (.expr function) w₃ (some (.sign .comma)))
    (harity : Derives minus mods (.expr arity) w₄ (some (.sign .rParen))) :
    Derives minus mods (.statement (.extend kind box function arity))
      (.keyword .extension :: .sign .lParen :: (w₁ ++ .sign .comma :: (w₂ ++ .sign .comma ::
        (w₃ ++ .sign .comma :: (w₄ ++ [.sign .rParen]))))) next
  | box {name : String} {base : Option String} {ms : Members} {w w' : List Token}
    {next : Option Token} (hmods : mods w) (hmembers : Derives minus mods (.members ms) w' next) :
    Derives minus mods
      (.statement (.box ⟨name, base, .keyword .abstract ∈ w, .keyword .const ∈ w,
        ms.fields, ms.methods⟩))
      (w ++ .keyword .refbox :: .ident name :: (baseWords base ++ w')) next
  | assign {name : String} {value : Node} {w : List Token} {next : Option Token}
    (h : Derives minus mods (.expr value) w next) :
    Derives minus mods (.statement (.assign name value)) (.ident name :: .sign .eq :: w) next
  | setField {holder field : String} {value : Node} {w : List Token} {next : Option Token}
    (h : Derives minus mods (.expr value) w next) :
    Derives minus mods (.statement (.setField holder field value))
      (.ident holder :: .sign .dot :: .ident field :: .sign .eq :: w) next
  | expression {node : Node} {w : List Token} {next : Option Token}
    (h : Derives minus mods (.expr node) w next)
    (hends : startsAssignment (w ++ next.toList) = false) :
    Derives minus mods (.statement node) w next
  -- blocks and functions
  | noStatements {next : Option Token} : Derives minus mods (.block []) [] next
  | statements {first : Node} {further : List Node} {w w' : List Token} {next : Option Token}
    (hfirst : Derives minus mods (.statement first) w (ahead w' next))
    (hfurther : Derives minus mods (.block further) w' next) :
    Derives minus mods (.block (first :: further)) (w ++ w') next
  | routine {name : String} {params : List String} {body : List Node} {w : List Token}
    {next : Option Token} (h : Derives minus mods (.body body) w next) :
    Derives minus mods (.routine ⟨name, params, body⟩)
      (.ident name :: (paramWords params ++ w)) next
  | bodyEnd {next : Option Token} : Derives minus mods (.body []) [.keyword .endBlock] next
  | bodyReturn {value : Option Node} {w : List Token} {next : Option Token}
    (h : Derives minus mods (.statement (.giveBack value)) w next) :
    Derives minus mods (.body [.giveBack value]) w next
  | body {first : Node} {further : List Node} {w w' : List Token} {next : Option Token}
    (hfirst : Derives minus mods (.statement first) w (ahead w' next))
    (hgoesOn : ∀ value, first ≠ .giveBack value)
    (hfurther : Derives minus mods (.body further) w' next) :
    Derives minus mods (.body (first :: further)) (w ++ w') next
  -- members
  | noMembers {next : Option Token} :
    Derives minus mods (.members ⟨[], []⟩) [.keyword .endBlock] next
  | memberField {access : Access} {name : String} {init : Node} {ms : Members}
    {w w' w'' : List Token} {next : Option Token} (haccess : AccessWord access w)
    (hinit : Derives minus mods (.expr init) w' (ahead w'' next))
    (hfurther : Derives minus mods (.members ms) w'' next) :
    Derives minus mods (.members (ms.addField ⟨name, init, access⟩))
      (w ++ .ident name :: .sign .eq :: (w' ++ w'')) next
  | memberFunction {access : Access} {r : Routine} {ms : Members} {w w' w'' : List Token}
    {next : Option Token} (haccess : AccessWord access w)
    (hroutine : Derives minus mods (.routine r) w' (ahead w'' next))
    (hfurther : Derives minus mods (.members ms) w'' next) :
    Derives minus mods (.members (ms.addMethod ⟨r, access, false⟩))
      (w ++ .keyword .function :: (w' ++ w'')) next
  | memberAbstract {access : Access} {name : String} {params : List String} {ms : Members}
    {w w' : List Token} {next : Option Token} (haccess : AccessWord access w)
    (hfurther : Derives minus mods (.members ms) w' next) :
    Derives minus mods (.members (ms.addMethod ⟨⟨name, params, []⟩, access, true⟩))
      (w ++ .keyword .abstract :: .keyword .function :: .ident name :: (paramWords params ++ w'))
      next

/-! ## What phrases begin with -/

/-- The tokens that a primary expression begins with. -/
def Token.startsPrimary : Token → Bool
  | .int _ | .str _ | .ident _ | .sign .lParen | .sign .lBracket => true
  | .keyword k => k = .create || k = .input || k.reader?.isSome
  | _ => false

/-- The tokens that an expression begins with. -/
def Token.startsExpr (t : Token) : Bool := t = .sign .minus || t.startsPrimary

/-- The tokens that a statement begins with. -/
def Token.startsStatement : Token → Bool
  | .keyword k => k ∉ [.otherwise, .endBlock, .void, .exposed, .guarded]
  | t => t.startsExpr

/-- A statement may begin with whatever an expression begins with. -/
theorem Token.startsStatement_of_expr {t : Token} (h : t.startsExpr = true) :
    t.startsStatement = true := by
  cases t with
  | keyword k => cases k <;> first | rfl | cases h
  | _ => exact h

/-- What the first token of a phrase is like. -/
def Phrase.Begins : Phrase → List Token → Prop
  | .tier .., w | .operands .., w => ∃ u ∈ w.head?, u.startsExpr = true
  | .applied _, w | .primary _, w => ∃ u ∈ w.head?, u.startsPrimary = true
  | .statement _, w | .block (_ :: _), w => ∃ u ∈ w.head?, u.startsStatement = true
  | .body _, w => ∃ u ∈ w.head?, u.startsStatement = true ∨ u = .keyword .endBlock
  | _, _ => True

theorem Derives.begins {minus : Node → Node} {mods : List Token → Prop}
    (hmods : ∀ w, mods w → AnyModifiers w) {ph : Phrase} {w : List Token} {next : Option Token}
    (h : Derives minus mods ph w next) : ph.Begins w := by
  -- what begins a row of tokens begins a longer one
  have hlonger : ∀ {w : List Token} {P : Token → Prop} (w' : List Token),
      (∃ u ∈ w.head?, P u) → ∃ u ∈ (w ++ w').head?, P u :=
    fun w' ⟨u, hu, h⟩ => ⟨u, List.mem_head?_append_of_mem_head? hu, h⟩
  induction h with
  | unary _ _ ih =>
    obtain ⟨u, hu, hstarts⟩ := ih
    exact ⟨u, hu, by rw [Token.startsExpr, hstarts, Bool.or_true]⟩
  | tier _ _ ih | operand _ _ ih | applied _ ih => exact ih
  | operator _ _ _ ih _ | index _ _ ih _ | extension _ _ ih _ | field _ _ ih
  | method _ _ _ ih _ => exact hlonger _ ih
  | @reader k _ _ _ _ _ hk _ _ _ =>
    refine ⟨_, rfl, ?_⟩
    cases k <;> first | rfl | cases hk
  | @command k _ _ _ _ _ hk _ _ _ =>
    refine ⟨_, rfl, ?_⟩
    cases k <;> first | rfl | cases hk
  | @box _ _ _ w _ _ h _ _ =>
    cases w with
    | nil => exact ⟨_, rfl, rfl⟩
    | cons t w =>
      rcases hmods _ h t (List.mem_cons_self ..) with rfl | rfl <;> exact ⟨_, rfl, rfl⟩
  | expression _ _ ih =>
    obtain ⟨u, hu, hstarts⟩ := ih
    exact ⟨u, hu, Token.startsStatement_of_expr hstarts⟩
  | statements _ _ ih _ => exact hlonger _ ih
  | bodyEnd => exact ⟨_, rfl, .inr rfl⟩
  | bodyReturn _ ih =>
    obtain ⟨u, hu, hstarts⟩ := ih
    exact ⟨u, hu, .inl hstarts⟩
  | body _ _ _ ih _ =>
    obtain ⟨u, hu, hstarts⟩ := hlonger _ ih
    exact ⟨u, hu, .inl hstarts⟩
  | minus | int | str | var | call | parens | array | create | input | function | giveBackNone
  | ifThen | ifElse | whileDo | forDo | extend | assign | setField => exact ⟨_, rfl, rfl⟩
  | noArgs | args | noItems | items | lastItem | moreItems | noStatements | routine | noMembers
  | memberField | memberFunction | memberAbstract => trivial

end BoxScript
