import Workbench.Failure
import Workbench.Path.Normal
import Workbench.Settings
import Workbench.Stream.Decoder
import Workbench.Surroundings

/-! # The world outside

Files, environment variables, and processes by script: what each process will
print and how it will end is known before it starts.
-/

namespace Workbench

variable [Surroundings]

/-- How a process ends: with a status that is told when it is waited for, or has
been reported before; without ever reporting one; or without one and out of reach
of a kill. -/
inductive Exit where
  | status (n : Int)
  | reported (n : Int)
  | silent
  | gone
deriving DecidableEq

namespace Exit

def code : Exit → Option Int
  | status n | reported n => some n
  | _ => none

def known : Exit → Option Int
  | reported n => some n
  | _ => none

end Exit

/-- What one process does. Its status can be had once its gate is open. -/
structure Script where
  out : List UInt8 := []
  err : List UInt8 := []
  exit : Exit := .status 0
  gate : Option Text := none
deriving DecidableEq

namespace Script

def outChunks (p : Script) : List (List UInt8) := chunksOf readSize p.out

def errChunks (p : Script) : List (List UInt8) := chunksOf readSize p.err

end Script

inductive Process.Call where
  | wait
  | kill (reached : Bool)
deriving DecidableEq

structure Process where
  exit : Exit
  /-- The status that it has reported. -/
  status : Option Int := exit.known
  calls : List Process.Call := []
deriving DecidableEq

namespace Process

def wait (p : Process) : Process :=
  { p with status := p.exit.code, calls := p.calls ++ [.wait] }

/-- Kills the process, if the kill reaches it. -/
def kill (p : Process) : Process :=
  if p.exit = .gone then { p with calls := p.calls ++ [.kill false] }
  else { p with exit := .status (-9), calls := p.calls ++ [.kill true] }

def killed (p : Process) : Bool := p.calls.contains (.kill true)

end Process

/-- The outcome of starting a process: it runs, or it is said why not. -/
abbrev Start := Except StartFault Script

structure Spawn where
  command : List Text
  directory : Option Text
deriving DecidableEq

structure World where
  files : OrderedMap Text Text := {}
  env : Environment := []
  starts : List Start := []
  spawned : List Spawn := []

namespace World

def isFile (w : World) (path : Text) : Bool :=
  !path.isEmpty && w.files.contains (Path.absolute path)

def content? (w : World) (path : Text) : Option Text :=
  if path.isEmpty then none else w.files.get? (Path.absolute path)

def write (w : World) (path content : Text) : World :=
  { w with files := w.files.insert (Path.absolute path) content }

def remove (w : World) (path : Text) : World :=
  { w with files := w.files.erase (Path.absolute path) }

def spawn (w : World) (command : List Text) (directory : Option Text) : Start × World :=
  let w : World := { w with spawned := w.spawned ++ [Spawn.mk command directory] }
  match w.starts with
  | [] => (.error (.refused "no more scripted processes"), w)
  | start :: rest => (start, { w with starts := rest })

end World

end Workbench
