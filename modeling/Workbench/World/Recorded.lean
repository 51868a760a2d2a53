import Workbench.Json.Value
import Workbench.World

/-! # Recorded worlds

A world as a JSON object: variables under `env` and contents of files under
`files` by name, and under `processes` in the order in which they are started
what processes print and how they end. What is left out is empty.
-/

namespace Workbench.World

open Json (Value)

variable [Surroundings]

def textOf : Value → Text
  | .str t => t
  | _ => []

def textsOf (v : Value) (name : Text) : List (Text × Text) :=
  match v.get? name with
  | some (.obj members) => members.map fun m => (m.1, textOf m.2)
  | _ => []

def octetsOf (v : Value) (name : Text) : List UInt8 :=
  Utf8.encode ((v.get? name).elim [] textOf)

/-- The status under `status`; a process without a number there never reports one. -/
def exitOf (v : Value) : Exit :=
  match v.get? "status" with
  | none => .status 0
  | some (.int n) => .status n
  | some _ => .silent

def startOf (v : Value) : Start :=
  match v.get? "failure" with
  | some reason => .error (.refused (textOf reason))
  | none => .ok { out := octetsOf v "out", err := octetsOf v "err", exit := exitOf v }

def startsOf (v : Value) : List Start :=
  match v.get? "processes" with
  | some (.arr items) => items.map startOf
  | _ => []

def ofValue (v : Value) : World where
  files := OrderedMap.ofList ((textsOf v "files").map fun f => (Path.absolute f.1, f.2))
  env := textsOf v "env"
  starts := startsOf v

end Workbench.World
