import BoxScript.Eval

/-!
# Sessions

Running source texts one after the other on one machine, and looking at the machine in between.
-/

namespace BoxScript

/-- Why a source text did not run to its end. -/
inductive ScriptError where
  | source (e : SyntaxError)
  | runtime (e : RuntimeError)

namespace ScriptError

/-- The error in words. -/
def message : ScriptError → String
  | source e => e.message
  | runtime e => e.message

/-- The error as it is shown on a line of its own. -/
def display : ScriptError → String
  | source e => e.display
  | runtime e => e.display

end ScriptError

/-- How a run of a source text ends. -/
inductive Ending where
  | finished
  | failed (e : ScriptError)
  | unfinished

namespace Machine

/-- Run a source text with so much fuel. -/
def runWith (fuel : Nat) (source : String) (m : Machine) : Ending × Machine :=
  match Program.ofSource source with
  | .error e => (.failed (.source e), m)
  | .ok program =>
    match runProgram (eval fuel) program m with
    | ⟨.ok _, m⟩ => (.finished, m)
    | ⟨.error e, m⟩ => (.failed (.runtime e), m)
    | ⟨.unfinished, m⟩ => (.unfinished, m)

/-- Run a source text. -/
def run (source : String) (m : Machine) : Ending × Machine := m.runWith plentyOfFuel source

/-- What a name stands for in the global scope. -/
def global? (m : Machine) (name : String) : Option Value := m.scopes.lookup name 0

/-- Go back to the global scope after a failure, with no signal pending and no call running. -/
def recover (m : Machine) : Machine :=
  let m := { m with depth := 0, context := { m.context with level := 0, inClause := false } }
  (m.updateReturns fun _ => []).updateScopes (·.close 0)

/-! ## The dump -/

/-- A part of the dump: its lines, or a line that says that there are none. -/
def dumpPart (lines : List String) (what : String) : String :=
  if lines.isEmpty then "  No " ++ what ++ " to display.\n" else String.join lines

/-- The variables of one scope. -/
def dumpScope (heap : Heap) (level : Nat) (bound : List (String × Value)) : String :=
  "Scope level: " ++ toString level ++ "\n"
    ++ String.join (bound.map fun v =>
      "  \x7b" ++ v.1 ++ ": " ++ heap.printable v.2 ++ "\x7d [" ++ v.2.kind.text ++ "]\n")

/-- One function. -/
def dumpFunction (r : Routine) : String :=
  "  " ++ r.name ++ " <- \x7b" ++ ", ".intercalate r.params ++ "\x7d\n"

/-- One definition. -/
def dumpBox (name : String) (d : BoxDef) : String :=
  let base := match d.base with
    | some base => " [base: " ++ base ++ "]"
    | none => ""
  "  " ++ name ++ " : \x7b" ++ d.summary ++ "\x7d" ++ base ++ "\n"

/-- All variables, functions and definitions of the context, in order. -/
def dump (m : Machine) : String :=
  let scopes := m.scopes.listing.map fun l => dumpScope m.heap l.1 l.2
  let functions := (m.functions.sorted Signature.le).map fun f => dumpFunction f.2
  let boxes := (m.boxes.sorted fun a b => a ≤ b).map fun b => dumpBox b.1 b.2
  "[Variables]\n" ++ dumpPart scopes "variables"
    ++ "\n[Functions]\n" ++ dumpPart functions "functions"
    ++ "\n[RefBoxes]\n" ++ dumpPart boxes "refboxes"

end Machine
end BoxScript
