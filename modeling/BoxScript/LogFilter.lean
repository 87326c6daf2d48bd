import BoxScript.Text.Decimal
import BoxScript.Text.Search

/-!
# Log filters

A filter says how much each part of the program logs. It is a list of directives, each a level for
the parts whose names start with a target. The longest target that fits a name counts, and of two
directives with the same target the later one. The empty target fits every name.
-/

namespace BoxScript

/-- How much is logged. Each level logs what the levels before it log, and more. -/
inductive LogLevel where
  | off | error | warn | info | debug | trace
  deriving DecidableEq, Repr

namespace LogLevel

/-- The place of a level among the levels. -/
def rank : LogLevel → Nat
  | off => 0
  | error => 1
  | warn => 2
  | info => 3
  | debug => 4
  | trace => 5

/-- Whether records of level `l` are logged. -/
def logs (limit l : LogLevel) : Bool := l.rank ≤ limit.rank

/-- The level in a place. -/
def ofRank? : Nat → Option LogLevel
  | 0 => some off
  | 1 => some error
  | 2 => some warn
  | 3 => some info
  | 4 => some debug
  | 5 => some trace
  | _ => none

theorem ofRank?_rank (l : LogLevel) : ofRank? l.rank = some l := by
  cases l <;> rfl

/-- The level of a name, in small letters. -/
def ofName? : String → Option LogLevel
  | "off" => some off
  | "error" => some error
  | "warn" => some warn
  | "info" => some info
  | "debug" => some debug
  | "trace" => some trace
  | _ => none

/-- The level that a text stands for: its number, or its name in small or big letters. -/
def ofText? (cs : List Char) : Option LogLevel :=
  let digits := match cs with
    | '+' :: digits => digits
    | digits => digits
  match Text.readNat? digits with
  | some n => ofRank? n
  | none => ofName? (String.ofList (cs.map Char.toLower))

end LogLevel

/-- A level for the parts whose names start with a target. -/
structure LogDirective where
  target : List Char
  level : LogLevel
  deriving DecidableEq, Repr

namespace LogDirective

/-- Whether a target can start with a character. -/
def startsTarget (c : Char) : Bool :=
  c.isAlphanum || c = '-' || c = ':' || c = '_' || 0x80 ≤ c.toNat

/-- The directive that a text stands for: a level, a target, or a target with its level. A target
alone logs everything. -/
def ofText? (cs : List Char) : Option LogDirective :=
  let cs := Text.trim cs
  if !(cs.head?.any startsTarget) then none
  else match cs.span (· ≠ '=') with
    | (word, []) => some (((LogLevel.ofText? word).map (⟨[], ·⟩)).getD ⟨word, .trace⟩)
    | (target, [_]) => some ⟨target, .trace⟩
    | (target, _ :: level) => (LogLevel.ofText? level).map (⟨target, ·⟩)

end LogDirective

/-- A log filter. -/
abbrev LogFilter := List LogDirective

namespace LogFilter

/-- The name under which runs of sources log. -/
def runs : String := "gnscript::interp::eval"

/-- The directives in a text, as texts. Those about single calls, in brackets, are left out. -/
def pieces (s : String) : List (List Char) :=
  (Text.split s.toList [',']).filter fun cs => !cs.isEmpty && !cs.contains '['

/-- The filter in an argument: what is no directive is passed over. -/
def ofArg (s : String) : LogFilter := (pieces s).filterMap LogDirective.ofText?

/-- The filter in the environment: all of it has to be directives. -/
def ofEnv? (s : String) : Option LogFilter := (pieces s).mapM LogDirective.ofText?

/-- The filter of a run: the one in the arguments, else the one in the environment, else a level
that shows warnings. -/
def choose (arg env : Option String) : LogFilter :=
  match arg with
  | some s => ofArg s
  | none => (env.bind ofEnv?).getD [⟨[], .warn⟩]

/-- The better of two directives for the part called `name`. -/
def better (name : List Char) (found : Option LogDirective) (d : LogDirective) :
    Option LogDirective :=
  if (Text.after? d.target name).isNone then found
  else match found with
    | some e => if d.target.length < e.target.length then found else some d
    | none => some d

/-- How much the part called `name` logs. -/
def level (f : LogFilter) (name : String) : LogLevel :=
  match f.foldl (better name.toList) none with
  | some d => d.level
  | none => if f.isEmpty then .error else .off

end LogFilter
end BoxScript
