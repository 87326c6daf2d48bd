import BoxScript.Text.Extending
import BoxScript.Text.Unprintable

/-!
# Quoted text

The form in which diagnostics show a piece of text: between double quotes, on one line, with every
character visible. Quotes, backslashes and the common controls have short escapes; a character
that is unprintable or that extends its neighbour is written by its code point in lower-case
hexadecimal. The two sound marks of halfwidth katakana extend their neighbour and still take a
place of their own, so they stay.
-/

namespace BoxScript.Text

/-- The code point of `c` as an escape. -/
def codeEscape (c : Char) : List Char :=
  "\\u\x7b".toList ++ Nat.toDigits 16 c.toNat ++ ['\x7d']

/-- Whether `c` is a sound mark of halfwidth katakana. -/
def isHalfwidthSoundMark (c : Char) : Bool := c = '\uff9e' || c = '\uff9f'

/-- One character inside a quoted text. -/
def quoteChar (c : Char) : List Char :=
  match c with
  | '\x00' => ['\\', '0']
  | '\t' => ['\\', 't']
  | '\n' => ['\\', 'n']
  | '\r' => ['\\', 'r']
  | '"' => ['\\', '"']
  | '\\' => ['\\', '\\']
  | c =>
    if 0x20 ≤ c.toNat && c.toNat < 0x7f then [c]
    else if isHalfwidthSoundMark c then [c]
    else if isExtending c || isUnprintable c then codeEscape c
    else [c]

/-- A text between quotes, with every character visible. -/
def quote (s : String) : String :=
  String.ofList ('"' :: s.toList.flatMap quoteChar ++ ['"'])

end BoxScript.Text
