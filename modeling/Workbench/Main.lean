import Workbench.Command.Run
import Workbench.Json.Reader
import Workbench.World.Recorded

/-! # The command

Carries a command line out in the world that is recorded on the standard
input, prints the report and ends with its status.
-/

namespace Workbench.Command

def Outcome.printed (r : Outcome) : Text × Text × Nat :=
  (r.output, (r.usageError.filter (!·.isEmpty)).elim [] (· ++ "\n"), r.status)

def Trouble.message : Trouble → Text
  | .settings errors => Text.join "\n" (errors.map fun e => Text.join "." e.place)
  | .crash c => c.message

open Surroundings in
def runRecorded (argv : List Text) (recording : Text) : Text × Text × Nat :=
  match Json.read recording with
  | .error e => ([], e.message recording ++ "\n", 1)
  | .ok v =>
    match run argv none (World.ofValue v) with
    | .error t => ([], t.message ++ "\n", 1)
    | .ok r => r.printed

/-- The rest of an input, line by line. -/
partial def readAll (input : IO.FS.Stream) (text : String) : IO String := do
  let line ← input.getLine
  if line.isEmpty then return text else readAll input (text ++ line)

end Workbench.Command

open Workbench in
def main (args : List String) : IO UInt32 := do
  let recording ← Command.readAll (← IO.getStdin) ""
  let (out, err, status) :=
    Command.runRecorded (args.map Text.ofString) (Text.ofString recording)
  (← IO.getStdout).putStr out.toString
  (← IO.getStderr).putStr err.toString
  return status.toUInt32
