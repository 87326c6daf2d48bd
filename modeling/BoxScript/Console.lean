import BoxScript.Value

/-!
# The console

What a program writes is collected in order. What it reads comes from a source of bytes that
arrives in blocks: a program that reads a line takes the whole block that the line ends in, and
keeps the rest of the block for its next line. Notes on a run stand apart from what the program
writes.
-/

namespace BoxScript

/-- The number of bytes in a block. -/
def blockSize : Nat := 8192

/-- The bytes up to the first line feed, which is included, and the bytes after it. -/
def splitLine (bytes : List UInt8) : List UInt8 × List UInt8 :=
  match bytes.span (· ≠ 10) with
  | (line, []) => (line, [])
  | (line, feed :: rest) => (line ++ [feed], rest)

/-- Whether the bytes end in a line feed. -/
def endsLine (bytes : List UInt8) : Bool := bytes.getLast? = some 10

/-- The text that bytes stand for in UTF-8. -/
def decodeText? (bytes : List UInt8) : Option String := String.fromUTF8? ⟨bytes.toArray⟩

/-- The console of a program. -/
structure Console where
  /-- Bytes of blocks that the program has taken and not yet read. -/
  held : List UInt8
  /-- Bytes that nobody has taken. -/
  source : List UInt8
  /-- How many bytes of the source have been taken. -/
  taken : Nat
  /-- All that was written. -/
  output : String
  /-- All that was noted. -/
  notes : String
  /-- Whether the ends of runs are noted. -/
  verbose : Bool
  deriving Inhabited

namespace Console

/-- A console with bytes to read. -/
def ofBytes (bytes : List UInt8) : Console := ⟨[], bytes, 0, "", "", false⟩

/-- Write a text. -/
def write (c : Console) (s : String) : Console := { c with output := c.output ++ s }

/-- Note a text. -/
def note (c : Console) (s : String) : Console := { c with notes := c.notes ++ s }

/-- The next line for the program, with its line feed if it has one. The end of the source ends
the last line. -/
def nextLine (c : Console) : List UInt8 × Console :=
  let (line, held) := splitLine c.held
  if endsLine line then (line, { c with held := held })
  else
    let (more, rest) := splitLine c.source
    let taken := c.taken + more.length
    let left := (blockSize - taken % blockSize) % blockSize
    (line ++ more,
      { c with held := rest.take left, source := rest.drop left, taken := taken + left })

/-- A line without the line feeds and carriage returns at its end. -/
def trimLineEnd (cs : List Char) : List Char :=
  (cs.reverse.dropWhile fun c => c = '\n' || c = '\r').reverse

/-- The value of the next line for the program. -/
def readValue (c : Console) : Except RuntimeError Value × Console :=
  let (line, c) := c.nextLine
  match decodeText? line with
  | none => (.error .inputNotText, c)
  | some text => (.ok (.ofInputLine (String.ofList (trimLineEnd text.toList))), c)

end Console
end BoxScript
