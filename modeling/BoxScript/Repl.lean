import BoxScript.Report
import BoxScript.Session
import BoxScript.Text.Rubout

/-!
# The interactive session

Lines are collected until an empty one, then run as one source on a machine that lives as long as
the session. A line that starts with a colon is a command, unless lines are being collected.
Backspaces in a line take effect before anything else looks at it.

What a line means hangs on the lines collected before it only. `Repl.step` says so without a
machine; `Repl.advance` does what the step asks for.
-/

namespace BoxScript

/-- What a line asks for. -/
inductive ReplStep where
  | command (text : String)
  | run (source : String)
  | wait
  deriving DecidableEq, Repr

/-- The state of an interactive session. What it writes goes to the console of the machine, and its
complaints to the notes there. -/
structure Repl where
  machine : Machine
  buffer : String
  /-- How the session is reported to have ended: 0 if nothing broke it off. -/
  exitCode : UInt8

namespace Repl

/-- A text without the blanks at its two ends. -/
def trimmed (s : String) : String := String.ofList (Text.trim s.toList)

/-- What a line asks for, and the buffer after it. -/
def step (buffer line : String) : ReplStep × String :=
  let text := trimmed line
  if buffer.isEmpty && text.toList.head? = some ':' then (.command text, buffer)
  else if text.isEmpty then
    if (trimmed buffer).isEmpty then (.wait, "") else (.run buffer, "")
  else (.wait, buffer ++ line ++ "\n")

/-! ## Output -/

/-- Write to the console. -/
def say (r : Repl) (s : String) : Repl :=
  { r with machine := { r.machine with console := r.machine.console.write s } }

/-- Write to the notes. -/
def complain (r : Repl) (s : String) : Repl :=
  { r with machine := { r.machine with console := r.machine.console.note s } }

/-- The lines at the start of a session. -/
def banner : String :=
  "GN Script REPL v0.1.0\nEnter statements; an empty line runs them. Type :help for help.\n\n"

/-- The answer to a call for help. -/
def help : String :=
  "GN Script REPL Commands:\n"
    ++ "  :help, :h, :?   Show this help\n"
    ++ "  :dump           Show variables, functions and refboxes\n"
    ++ "  :clear          Start over with a fresh interpreter\n"
    ++ "  :quit, :q       Exit the REPL\n"
    ++ "\n"
    ++ "Statements are collected until an empty line, for example:\n"
    ++ "  function square(n) return n * n\n"
    ++ "  print square(7)\n"

/-- The last line of a session. -/
def farewell : String := "Goodbye!\n"

/-- Clear the screen and go to its first corner. -/
def clearScreen : String := "\x1b[2J\x1b[1;1H"

/-- The sign that a line is awaited: the first one, or one more. -/
def prompt (buffer : String) : String := if buffer.isEmpty then "> " else ". "

/-! ## Steps -/

/-- Run a source, and say whether the run has ended. After a failure the machine goes back to the
global scope. A run that does not end stops the session where it is: no line after it is read. -/
def runSource (source : String) (r : Repl) : Bool × Repl :=
  match r.machine.run source with
  | (.finished, m) => (true, { r with machine := m })
  | (.failed (.source e), m) =>
    (true, ({ r with machine := m.recover } : Repl).complain (e.report "<repl>" source))
  | (.failed (.runtime e), m) =>
    (true, ({ r with machine := m.recover } : Repl).complain (e.display ++ "\n"))
  | (.unfinished, m) =>
    (false, ({ r with machine := m, exitCode := 1 } : Repl).complain "Error: out of fuel\n")

/-- A session with a machine that has run nothing; what was written and what nobody has read yet
stay. -/
def restart (r : Repl) : Repl :=
  { r with
    machine := .new r.machine.files { r.machine.console with held := [] }
    buffer := "" }

/-- Obey a command, and say whether the session goes on. -/
def obey (text : String) (r : Repl) : Bool × Repl :=
  match text with
  | ":quit" | ":q" | ":exit" => (false, r.say farewell)
  | ":help" | ":h" | ":?" => (true, r.say help)
  | ":dump" => (true, r.say r.machine.dump)
  | ":clear" => (true, r.restart.say clearScreen)
  | _ => (true, r.say ("Unknown command: " ++ text ++ "\nType :help for help.\n"))

/-- Take in a line, and say whether the session goes on. -/
def advance (line : String) (r : Repl) : Bool × Repl :=
  let (asked, buffer) := step r.buffer line
  let r := { r with buffer := buffer }
  match asked with
  | .command text => r.obey text
  | .run source => r.runSource source
  | .wait => (true, r)

/-- End the session at the end of its input. Lines that were collected run first. -/
def finish (r : Repl) : Repl :=
  if r.buffer.isEmpty then r.say farewell
  else
    let (ended, r) := ({ r with buffer := "" } : Repl).runSource r.buffer
    if ended then r.say farewell else r

/-- Break the session off because a line is broken. -/
def breakOff (r : Repl) : Repl :=
  { r with exitCode := 101 }.complain "a backspace cuts a character in two\n"

/-- A line without its line feed and a carriage return right before that. -/
def stripLineEnd (line : String) : String :=
  match line.toList.reverse with
  | '\n' :: '\r' :: rest => String.ofList rest.reverse
  | '\n' :: rest => String.ofList rest.reverse
  | _ => line

/-- Take lines off the input of the console, for so many lines at most. -/
def converse : Nat → Repl → Repl
  | 0, r => r
  | lines + 1, r =>
    let r := r.say (prompt r.buffer)
    let console := r.machine.console
    match console.source with
    | [] => r.finish
    | source =>
      let (line, rest) := splitLine source
      let console := { console with source := rest, taken := console.taken + line.length }
      let r := { r with machine := { r.machine with console := console } }
      match decodeText? line with
      | none => r.complain ("Error: " ++ FileFault.notText.text ++ "\n")
      | some text =>
        match Text.rubOut (stripLineEnd text) with
        | none => r.breakOff
        | some line =>
          match r.advance line with
          | (true, r) => converse lines r
          | (false, r) => r

/-- A whole session over what there is to read on a console. Each line takes at least one byte. -/
def session (files : Files) (console : Console) : Repl :=
  let start : Repl := ⟨.new files console, "", 0⟩
  converse (console.source.length + 1) (start.say banner)

end Repl
end BoxScript
