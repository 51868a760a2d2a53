import Workbench.Record.Line
import Workbench.Uri.File
import Workbench.Version

/-! # Failures

What may go wrong with a toolchain, with typed fields and a report, and the
crashes that nothing here expects: they end what is being done.
-/

namespace Workbench

open Json (Value)

inductive Failure where
  | general (message : Text) (detail : Field.Members)
  /-- No candidate exists; the places that were looked in. -/
  | discovery (descriptions : List Text)
  | versionUnknown (binary reason : Text)
  | decoding (line reason : Text)
  | process (command : List Text) (exitCode : Option Int) (root : Option Text)
  | transport (command : List Text) (reason : Text)
  | install (reason : Text) (url : Option Text)

namespace Failure

def kind : Failure → Text
  | general .. => "ToolchainError"
  | discovery .. => "DiscoveryFailure"
  | versionUnknown .. => "VersionUnknown"
  | decoding .. => "DecodeError"
  | process .. => "ProcessFailure"
  | transport .. => "TransportFailure"
  | install .. => "InstallError"

def statusText : Option Int → Text
  | none => "None"
  | some n => Text.ofInt n

def message : Failure → Text
  | general m _ => m
  | discovery _ => "usable `reproto` command could not be found"
  | versionUnknown binary reason => "failed to detect version of `" ++ binary ++ "`: " ++ reason
  | decoding _ reason => "illegal json on stdout: " ++ reason
  | process _ code _ => "command exited with non-zero exit status: " ++ statusText code
  | transport command reason =>
    "failed to start `" ++ Text.join " " command ++ "`: " ++ reason
  | install reason _ => "install failed: " ++ reason

def texts (ts : List Text) : Value := .arr (ts.map .str)

def given (name : Text) (t : Option Text) : Field.Members :=
  match t.filter (!·.isEmpty) with
  | some t => Field.member name (.str t)
  | none => []

def statusValue : Option Int → Value
  | none => .null
  | some n => .int n

def detail : Failure → Field.Members
  | general _ d => d
  | discovery descriptions => [("looked_in", texts descriptions)]
  | versionUnknown binary reason => [("binary", .str binary), ("reason", .str reason)]
  | decoding line reason => [("reason", .str reason), ("line_length", .int line.length)]
  | process command code root =>
    Field.member "command" (texts command) ++ Field.member "exit_code" (statusValue code) ++
      given "root" root
  | transport command reason => [("command", texts command), ("reason", .str reason)]
  | install reason url => Field.member "reason" (.str reason) ++ given "url" url

/-- Kind, message and detail; a detail of one of these names replaces it. -/
def report (f : Failure) : Field.Members :=
  (OrderedMap.ofList (Field.member "error" (.str f.kind) ++
    Field.member "message" (.str f.message) ++ f.detail)).entries

def lines? : Failure → Option (List Text)
  | discovery descriptions =>
    let title : Text := "looked in the following places:"
    some (title :: descriptions.zipIdx.map fun d => "#" ++ Text.ofNat d.2 ++ ": " ++ d.1)
  | _ => none

end Failure

inductive Crash where
  | closedOutput
  | unencodable (u : Uri.Unencodable)
  | aborted (a : Abort)
  | reference (f : Uri.Fault)
  | version (f : Version.Fault)
  | missingFile (path : Text)
  /-- A value of the wrong type was asked for an operation. -/
  | wrongType (message : Text)
  /-- One value is needed and there is none. -/
  | noValue
  /-- A line is longer than can be read, whether it ends or not. -/
  | overlongLine (ended : Bool)
  /-- A command or a directory that cannot be handed to the system. -/
  | malformed (message : Text)

def Crash.message : Crash → Text
  | closedOutput => "output channel closed"
  | unencodable u => u.message
  | aborted a => a.message
  | reference f => f.message
  | version f => f.message
  | missingFile path => "[Errno 2] No such file or directory: " ++ Text.quoted path
  | wrongType message => message
  | noValue => "not enough values to unpack (expected 1, got 0)"
  | overlongLine true => "Separator is found, but chunk is longer than limit"
  | overlongLine false => "Separator is not found, and chunk exceed the limit"
  | malformed message => message

inductive Problem where
  | failure (f : Failure)
  | crash (c : Crash)

def Problem.message : Problem → Text
  | failure f => f.message
  | crash c => c.message

/-- Why a process does not start: the system refuses it, or the command or the directory cannot
be handed to the system. -/
inductive StartFault where
  | refused (reason : Text)
  | malformed (message : Text)
deriving DecidableEq

/-- What a caller is told; only what the system refuses is expected. -/
def StartFault.problem (command : List Text) : StartFault → Problem
  | refused reason => .failure (.transport command reason)
  | malformed message => .crash (.malformed message)

end Workbench
