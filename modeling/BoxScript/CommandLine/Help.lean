/-!
# Help on the command line
-/

namespace BoxScript

/-- What help can be asked for. -/
inductive HelpTopic where
  | run | repl | parse | tokens | help
  deriving DecidableEq, Repr

namespace HelpTopic

/-- The topic of a name. -/
def ofName? : String → Option HelpTopic
  | "run" => some run
  | "repl" => some repl
  | "parse" => some parse
  | "tokens" => some tokens
  | "help" => some help
  | _ => none

/-- The options that every command has. -/
def options : String :=
  "Options:\n"
    ++ "      --log <LOG>  Log filter (e.g. `debug`, `gnscript=trace`); "
    ++ "defaults to $GNS_LOG or `warn`\n"
    ++ "  -h, --help       Print help\n"

/-- The help on a command. -/
def text : HelpTopic → String
  | run =>
    "Run a GN Script file\n\nUsage: gns run [OPTIONS] <FILE>\n\n"
      ++ "Arguments:\n  <FILE>  Script to execute\n\n" ++ options
  | repl => "Start an interactive session\n\nUsage: gns repl [OPTIONS]\n\n" ++ options
  | parse =>
    "Parse and dump AST as JSON (debug)\n\nUsage: gns parse [OPTIONS] <FILE>\n\n"
      ++ "Arguments:\n  <FILE>  Source file to parse\n\n" ++ options
  | tokens =>
    "Tokenize and dump tokens (debug)\n\nUsage: gns tokens [OPTIONS] <FILE>\n\n"
      ++ "Arguments:\n  <FILE>  Source file to tokenize\n\n" ++ options
  | help =>
    "Print this message or the help of the given subcommand(s)\n\n"
      ++ "Usage: gns help [COMMAND]...\n\n"
      ++ "Arguments:\n  [COMMAND]...  Print help for the subcommand(s)\n"

/-- The help on the whole. -/
def overview : String :=
  "GN Script interpreter\n\nUsage: gns [OPTIONS] [COMMAND]\n\n"
    ++ "Commands:\n"
    ++ "  run     Run a GN Script file\n"
    ++ "  repl    Start an interactive session\n"
    ++ "  parse   Parse and dump AST as JSON (debug)\n"
    ++ "  tokens  Tokenize and dump tokens (debug)\n"
    ++ "  help    Print this message or the help of the given subcommand(s)\n\n"
    ++ options
    ++ "  -V, --version    Print version\n"

end HelpTopic
end BoxScript
