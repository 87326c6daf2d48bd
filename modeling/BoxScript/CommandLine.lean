import BoxScript.CommandLine.Help
import BoxScript.LogFilter
import BoxScript.Node.Json
import BoxScript.Repl

/-!
# The command line

`gns` runs a script, starts an interactive session, or lists the tokens or the tree of a script.
A run of it is a function of the arguments, the environment, the files and the input: it gives an
exit code and what goes to the two outputs.
-/

namespace BoxScript

/-- What the command line can do. -/
inductive Command where
  | run (file : String)
  | repl
  | parse (file : String)
  | tokens (file : String)
  deriving DecidableEq, Repr

/-- What the arguments ask for. -/
structure Arguments where
  command : Command
  /-- The log filter. -/
  log : Option String
  deriving DecidableEq, Repr

/-- Why arguments end before they ask for a command. -/
inductive Stop where
  | mistake (reason : String)
  | help (topic : Option HelpTopic)
  | version
  deriving DecidableEq, Repr

/-- What a run of the command line gives. -/
structure CommandResult where
  exitCode : UInt8
  stdout : String
  stderr : String

namespace Arguments

/-- A file argument, which has to have a name. -/
def fileArg (file : String) : Except Stop String :=
  if file.isEmpty then .error (.mistake "a value is required for '<FILE>' but none was supplied")
  else .ok file

/-- An argument in a place that has none. -/
def unexpected {α : Type} (arg : String) : Except Stop α :=
  .error (.mistake ("unexpected argument '" ++ arg ++ "' found"))

/-- A name that is no command. -/
def unrecognized {α : Type} (name : String) : Except Stop α :=
  .error (.mistake ("unrecognized subcommand '" ++ name ++ "'"))

/-- The one argument that is no option. -/
def single (found : Option String) (arg : String) : Except Stop (Option String) := do
  match found with
  | some _ => unexpected arg
  | none => return some (← fileArg arg)

/-- The file has to be there in the end. -/
def required (found : Option String) : Except Stop String :=
  match found with
  | some file => .ok file
  | none => .error (.mistake "the following required arguments were not provided: <FILE>")

/-- Whether an argument is an option: it starts with a hyphen and goes on. -/
def isOption (arg : String) : Bool :=
  match arg.toList with
  | '-' :: _ :: _ => true
  | _ => false

/-- The option for the log stands once only. -/
def logOnce (log : Option String) : Except Stop Unit :=
  if log.isSome then .error (.mistake "the argument '--log <LOG>' cannot be used multiple times")
  else .ok ()

/-- The value of the option for the log is no option itself. -/
def logValue (value : String) : Except Stop Unit :=
  if isOption value then
    .error (.mistake "a value is required for '--log <LOG>' but none was supplied")
  else .ok ()

/-- The value in an argument that is the option for the log with its value. -/
def logIn? (arg : String) : Option String :=
  (Text.after? "--log=".toList arg.toList).map String.ofList

/-- Whether an argument asks for help. Short options may stand together in one argument. -/
def asksHelp (arg : String) : Bool :=
  arg = "--help" || (Text.after? ['-', 'h'] arg.toList).isSome

/-- Whether an argument asks for the version. -/
def asksVersion (arg : String) : Bool :=
  arg = "--version" || (Text.after? ['-', 'V'] arg.toList).isSome

/-- The file and the log filter among the arguments of a command. The option for the log may stand
anywhere, once. -/
def fileOf (topic : HelpTopic) (found log : Option String) :
    List String → Except Stop (String × Option String)
  | [] => do return (← required found, log)
  | "--" :: rest => do return (← required (← rest.foldlM single found), log)
  | "--log" :: value :: rest => do
    logOnce log
    logValue value
    fileOf topic found (some value) rest
  | arg :: rest =>
    match logIn? arg with
    | some value => do
      logOnce log
      fileOf topic found (some value) rest
    | none =>
      if asksHelp arg then .error (.help topic)
      else if isOption arg then unexpected arg
      else do fileOf topic (← single found arg) log rest

/-- The log filter among the arguments of a command that takes no file. -/
def noFileOf (topic : HelpTopic) (log : Option String) :
    List String → Except Stop (Option String)
  | [] => .ok log
  | ["--"] => .ok log
  | "--log" :: value :: rest => do
    logOnce log
    logValue value
    noFileOf topic (some value) rest
  | arg :: rest =>
    match logIn? arg with
    | some value => do
      logOnce log
      noFileOf topic (some value) rest
    | none => if asksHelp arg then .error (.help topic) else unexpected arg

/-- A command with a file. Its own log filter goes before the one in front of it. -/
def withFile (topic : HelpTopic) (make : String → Command) (log : Option String)
    (args : List String) : Except Stop Arguments := do
  let (file, inner) ← fileOf topic none none args
  return ⟨make file, inner <|> log⟩

/-- What arguments ask for, behind a log filter or none. -/
def readFrom (log : Option String) : List String → Except Stop Arguments
  | [] => .ok ⟨.repl, log⟩
  | ["--"] => .ok ⟨.repl, log⟩
  | "run" :: args => withFile .run .run log args
  | "parse" :: args => withFile .parse .parse log args
  | "tokens" :: args => withFile .tokens .tokens log args
  | "repl" :: args => do return ⟨.repl, (← noFileOf .repl none args) <|> log⟩
  | ["help"] => .error (.help none)
  | ["help", name] =>
    match HelpTopic.ofName? name with
    | some topic => .error (.help topic)
    | none => unrecognized name
  | "help" :: _ :: name :: _ => unrecognized name
  | "--log" :: value :: rest => do
    logOnce log
    logValue value
    readFrom (some value) rest
  | arg :: rest =>
    match logIn? arg with
    | some value => do
      logOnce log
      readFrom (some value) rest
    | none =>
      if asksVersion arg then .error .version
      else if asksHelp arg then .error (.help none)
      else if isOption arg then unexpected arg
      else unrecognized arg

/-- What arguments ask for. -/
def read (args : List String) : Except Stop Arguments := readFrom none args

end Arguments

namespace Command

/-- A run that went well. -/
def success (stdout notes : String) : CommandResult := ⟨0, stdout, notes⟩

/-- A run that failed, for a reason. -/
def failure (stdout notes reason : String) : CommandResult :=
  ⟨1, stdout, notes ++ "Error: " ++ reason ++ "\n"⟩

/-- A run that ends with a report of what is wrong with the source. -/
def badSource (file source : String) (e : SyntaxError) : CommandResult :=
  failure "" (e.report file source) "compilation failed"

/-- Go on with the text of a file. -/
def withSource (files : Files) (file : String) (next : String → CommandResult) : CommandResult :=
  match files.readText file with
  | .ok source => next source
  | .error fault => failure "" "" ("IO error: " ++ file ++ ": " ++ fault.text)

/-- Run a script. -/
def runScript (files : Files) (console : Console) (file source : String) : CommandResult :=
  match (Machine.new files console).run source with
  | (.finished, m) => success m.console.output m.console.notes
  | (.failed (.source e), _) => badSource file source e
  | (.failed (.runtime e), m) => failure m.console.output m.console.notes e.display
  | (.unfinished, m) => failure m.console.output m.console.notes "out of fuel"

/-- The tree of a script as indented JSON. -/
def showTree (file source : String) : CommandResult :=
  match Program.ofSource source with
  | .ok program => success ((Program.toJson program).pretty 0 ++ "\n") ""
  | .error e => badSource file source e

/-- The tokens of a script, one on a line. -/
def showTokens (file source : String) : CommandResult :=
  match Token.scan source with
  | .ok found =>
    success (String.join (found.map fun t => t.1.listing ++ " @ " ++ t.2.text ++ "\n")) ""
  | .error e => badSource file source e

/-- Do what a command asks for. -/
def perform (files : Files) (console : Console) : Command → CommandResult
  | run file => withSource files file (runScript files console file)
  | repl =>
    let r := Repl.session files console
    ⟨r.exitCode, r.machine.console.output, r.machine.console.notes⟩
  | parse file => withSource files file (showTree file)
  | tokens file => withSource files file (showTokens file)

/-- A run of the command line, with the log filter that the environment gives. -/
def execute (files : Files) (input : List UInt8) (env : Option String) (args : List String) :
    CommandResult :=
  match Arguments.read args with
  | .ok ⟨command, log⟩ =>
    let verbose := ((LogFilter.choose log env).level LogFilter.runs).logs .debug
    command.perform files { Console.ofBytes input with verbose := verbose }
  | .error (.help none) => success HelpTopic.overview ""
  | .error (.help (some topic)) => success topic.text ""
  | .error .version => success "gns 0.1.0\n" ""
  | .error (.mistake reason) => ⟨2, "", "error: " ++ reason ++ "\n"⟩

end Command
end BoxScript
