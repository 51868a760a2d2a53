import Workbench.Command.Arguments

/-! # The command line

Four commands with their arguments, after options that hold for all of them.
-/

namespace Workbench.Command

def programName : Text := "reproto-ide"

def programVersion : Text := "0.1.0"

inductive Task where
  | build (roots : List Text)
  | symbols (query : Text) (roots : List Text)
  | version
  | init (root : Text)
deriving DecidableEq

structure Invocation where
  /-- The path of the toolchain, if it is given and not empty. -/
  executable : Option Text
  logLevel : Option Text
  install : Bool
  task : Task
deriving DecidableEq

def helpOption : Opt := ⟨["-h", "--help"], .help⟩

def options : List Opt :=
  [helpOption, ⟨["--version"], .version⟩, ⟨["--executable"], .value⟩, ⟨["--install"], .switch⟩,
    ⟨["--log-level"], .value⟩]

def usage : Usage := ⟨programName, options, [⟨"command", .rest⟩]⟩

def commands : List (Text × List Positional) :=
  [("build", [⟨"roots", .atLeastOne⟩]), ("symbols", [⟨"query", .single⟩, ⟨"roots", .anyNumber⟩]),
    ("version", []), ("init", [⟨"root", .atMostOne⟩])]

def commandUsage (name : Text) (positionals : List Positional) : Usage :=
  ⟨programName ++ " " ++ name, [helpOption], positionals⟩

def invalidCommand (name : Text) : Stop :=
  .error programName ("argument command: invalid choice: " ++ name.quoted ++ " (choose from " ++
    Text.join ", " (commands.map (·.1.quoted)) ++ ")")

def here : Text := "."

def orHere (args : List Text) : List Text := if args.isEmpty then [here] else args

def taskOf (name : Text) (p : Parsed) : Task :=
  let roots := p.arguments "roots"
  if name = "build" then .build roots
  else if name = "symbols" then .symbols ((p.arguments "query").headD []) (orHere roots)
  else if name = "init" then .init ((orHere (p.arguments "root")).headD here)
  else .version

def parseCommand (args : List Text) : Except Stop (Task × List Text) := do
  let name := args.headD []
  match commands.find? (·.1 = name) with
  | none => throw (invalidCommand name)
  | some c =>
    let p ← (commandUsage name c.2).parse args.tail
    return (taskOf name p, p.extras)

/-- Reads a whole command line; an argument that has no place in it is an error. -/
def parse (argv : List Text) : Except Stop Invocation := do
  let p ← usage.parse argv
  let (task, extras) ← parseCommand (p.arguments "command")
  let given (name : Text) : Option Text := (p.value? name).filter (!·.isEmpty)
  match p.extras ++ extras with
  | [] => return ⟨given "--executable", given "--log-level", p.isSet "--install", task⟩
  | unknown => throw (.error programName ("unrecognized arguments: " ++ Text.join " " unknown))

end Workbench.Command
