import BoxScript.SyntaxError
import BoxScript.Text.Position

/-!
# Reports

What is wrong with a source, for a reader at a terminal: the stage that found it, its place, and
the message.
-/

namespace BoxScript

/-- A text in the colour of the frame of a report. -/
def framed (s : String) : String := "\x1b[38;5;246m" ++ s ++ "\x1b[0m"

/-- A text in the colour of an error. -/
def alarming (s : String) : String := "\x1b[31m" ++ s ++ "\x1b[0m"

namespace SyntaxError

/-- A report of what is wrong with a source. Its place is counted in characters, so the place is
exact for a source in ASCII; a place beyond the characters is not shown, nor the message at it. -/
def report (file source : String) (e : SyntaxError) : String :=
  let heading := alarming "Error:" ++ " " ++ e.fault.stage ++ " error\n"
  if e.span.start ≤ source.length ∧ e.span.stop ≤ source.length + 1 then
    let (line, column) := Text.place source.toList e.span.start
    heading
      ++ "   " ++ framed "╭─[" ++ " " ++ file ++ ":" ++ toString line ++ ":" ++ toString column
      ++ " " ++ framed "]" ++ "\n"
      ++ "   " ++ framed "╰──" ++ " " ++ e.message ++ "\n"
  else heading

end SyntaxError
end BoxScript
