import BoxScript.SyntaxError

/-!
# From characters to tokens

A source text is read from left to right, one lexeme at a time, and each lexeme is as long as it
can be. `Lexeme.read` looks at the text before it and says what the next lexeme is and how many
characters it takes; `Token.scan` repeats that to the end of the text or to the first characters
that are no token.
-/

namespace BoxScript

namespace Text

/-- The characters that may stand between tokens. -/
def isGap (c : Char) : Bool := c = ' ' || c = '\t' || c = '\n' || c = '\r'

/-- The characters that may start a name. -/
def isNameStart (c : Char) : Bool :=
  ('a' ≤ c && c ≤ 'z') || ('A' ≤ c && c ≤ 'Z') || c = '_'

/-- The characters that a name may go on with. -/
def isNameRest (c : Char) : Bool := isNameStart c || isDigit c

/-- How far the inside of a string reaches, counted on top of `n`. The inside is made of items: a
plain character, or a backslash with the character after it, which is no line feed. With the
closing quote the string is whole and the quote counts; without one, the count ends after the last
whole item. -/
def stringReach (n : Nat) : List Char → Bool × Nat
  | [] => (false, n)
  | '"' :: _ => (true, n + 1)
  | '\\' :: '\n' :: _ => (false, n)
  | '\\' :: _ :: cs => stringReach (n + 2) cs
  | ['\\'] => (false, n)
  | _ :: cs => stringReach (n + 1) cs

/-- The content that the inside of a string stands for, behind what is `written` in reverse. A
backslash that starts none of the five escapes stays, together with the character after it. -/
def unescapeFrom (written : List Char) : List Char → List Char
  | [] => written.reverse
  | '\\' :: 'n' :: cs => unescapeFrom ('\n' :: written) cs
  | '\\' :: 't' :: cs => unescapeFrom ('\t' :: written) cs
  | '\\' :: 'r' :: cs => unescapeFrom ('\r' :: written) cs
  | '\\' :: '\\' :: cs => unescapeFrom ('\\' :: written) cs
  | '\\' :: '"' :: cs => unescapeFrom ('"' :: written) cs
  | '\\' :: c :: cs => unescapeFrom (c :: '\\' :: written) cs
  | c :: cs => unescapeFrom (c :: written) cs

/-- The content that the inside of a string stands for. -/
def unescape (cs : List Char) : List Char := unescapeFrom [] cs

end Text

/-- What the characters at the front of a text are. -/
inductive Lexeme where
  /-- Nothing that matters: a blank or a comment. -/
  | gap
  | token (t : Token)
  /-- No token. -/
  | fault
  deriving DecidableEq, Repr

namespace Lexeme

/-- The lexeme of a sign. -/
def ofSign (s : Sign) : Lexeme := token (.sign s)

/-- A number: all digits in a row, if they are in range. -/
def number (digits : List Char) : Lexeme :=
  match fit (Text.digitsValue digits) with
  | some n => token (.int n)
  | none => fault

/-- The lexeme at the front of the text `c :: cs`, and how many characters of `cs` belong to it. -/
def read (c : Char) (cs : List Char) : Lexeme × Nat :=
  if Text.isGap c then (gap, 0)
  else if Text.isNameStart c then
    let rest := cs.takeWhile Text.isNameRest
    (token (.ofWord (String.ofList (c :: rest))), rest.length)
  else if Text.isDigit c then
    let rest := cs.takeWhile Text.isDigit
    (number (c :: rest), rest.length)
  else match c, cs with
    | '"', cs =>
      match Text.stringReach 0 cs with
      | (true, n) => (token (.str (String.ofList (Text.unescape (cs.take (n - 1))))), n)
      | (false, n) => (fault, n)
    | '/', '/' :: cs => (gap, (cs.takeWhile (· ≠ '\n')).length + 1)
    | '/', _ => (ofSign .slash, 0)
    | '*', '*' :: _ => (ofSign .starStar, 1)
    | '*', _ => (ofSign .star, 0)
    | '=', '=' :: _ => (ofSign .eqEq, 1)
    | '=', _ => (ofSign .eq, 0)
    | '<', '>' :: _ => (ofSign .notEq, 1)
    | '<', '=' :: _ => (ofSign .ltEq, 1)
    | '<', _ => (ofSign .lt, 0)
    | '>', '=' :: _ => (ofSign .gtEq, 1)
    | '>', _ => (ofSign .gt, 0)
    | '&', '&' :: _ => (ofSign .andAnd, 1)
    | '|', '|' :: _ => (ofSign .orOr, 1)
    | '+', _ => (ofSign .plus, 0)
    | '-', _ => (ofSign .minus, 0)
    | '%', _ => (ofSign .percent, 0)
    | '(', _ => (ofSign .lParen, 0)
    | ')', _ => (ofSign .rParen, 0)
    | '[', _ => (ofSign .lBracket, 0)
    | ']', _ => (ofSign .rBracket, 0)
    | ',', _ => (ofSign .comma, 0)
    | ';', _ => (ofSign .semi, 0)
    | ':', _ => (ofSign .colon, 0)
    | '.', _ => (ofSign .dot, 0)
    | _, _ => (fault, 0)

end Lexeme

/-- The tokens of a source text, each with its place. -/
abbrev Tokens := List (Token × Span)

namespace Token

/-- The tokens of the text `cs`, which starts at `offset` of the source, behind those that are
`found` in reverse. -/
def scanFrom (found : Tokens) (offset : Nat) : List Char → Except SyntaxError Tokens
  | [] => .ok found.reverse
  | c :: cs =>
    let (lexeme, more) := Lexeme.read c cs
    let slice := c :: cs.take more
    let stop := offset + byteLength slice
    match lexeme with
    | .gap => scanFrom found stop (cs.drop more)
    | .token t => scanFrom ((t, ⟨offset, stop⟩) :: found) stop (cs.drop more)
    | .fault => .error ⟨.unreadable (String.ofList slice), ⟨offset, stop⟩⟩
termination_by cs => cs.length
decreasing_by all_goals simp only [List.length_drop, List.length_cons]; omega

/-- The tokens of a source text, or the first characters of it that are none. -/
def scan (source : String) : Except SyntaxError Tokens := scanFrom [] 0 source.toList

end Token
end BoxScript
