import Workbench.Build.Session

/-! # Reading a running build

A session reads the output and the error stream of its process side by side. What
has arrived of a stream is read at once, so each stream comes in chunks of any
sizes. A crash ends the reading of its stream; the other stream is not waited for
then.
-/

namespace Workbench

variable [Surroundings]

/-- A session whose process runs. -/
structure Reading where
  session : Session
  script : Script
  /-- The octets of output to come; none when the end has been read. -/
  output : Option (List UInt8)
  /-- The octets of the error stream to come, behind a character that has begun. -/
  errors : Option (Utf8.State × List UInt8)
  /-- What has ended the reading of the output. -/
  crash : Option Crash := none
  /-- What has ended the reading of the error stream, if the output had not crashed before. -/
  fault : Option Crash := none

namespace Reading

def start (s : Session) (p : Script) : Reading where
  session := s.enter .running
  script := p
  output := some p.out
  errors := some (.start, p.err)

/-- How many octets are read of those that have arrived, at least one. -/
def portion (arrived : Nat) : Nat := max 1 (min arrived readSize)

def afterPart (r : Reading) (left : Option (List UInt8))
    (out : Session × Editor × Option Crash) : Reading × Editor :=
  ({ r with session := out.1, output := left, crash := out.2.2 }, out.2.1)

def readOutput (r : Reading) (e : Editor) (arrived : Nat) : Reading × Editor :=
  match r.crash, r.output with
  | none, some [] => r.afterPart none (r.session.readPart e none)
  | none, some bytes =>
    r.afterPart (some (bytes.drop (portion arrived)))
      (r.session.readPart e (some (bytes.take (portion arrived))))
  | _, _ => (r, e)

def afterErrors (r : Reading) (left : Option (Utf8.State × List UInt8)) :
    Editor × Option Crash → Reading × Editor
  | (e, none) => ({ r with errors := left }, e)
  | (e, some c) => ({ r with errors := none, fault := if r.crash.isNone then some c else none }, e)

def readErrors (r : Reading) (e : Editor) (arrived : Nat) : Reading × Editor :=
  match r.errors with
  | none => (r, e)
  | some (u, []) => r.afterErrors none (Session.forwardTail u e)
  | some (u, bytes) =>
    let out := Session.forwardChunk (u, e) (bytes.take (portion arrived))
    r.afterErrors (some (out.1.1, bytes.drop (portion arrived))) (out.1.2, out.2)

/-- What has ended the reading: the first crash on either stream. -/
def ended (r : Reading) : Option Crash := r.fault.or r.crash

def isOver (r : Reading) : Bool := r.ended.isSome || r.output.isNone && r.errors.isNone

/-- How many readings it takes to the end of a stream, when all of it has arrived. -/
def parts (bytes : List UInt8) : Nat := bytes.length / readSize + 2

def outputParts (r : Reading) : Nat := (r.output.map parts).getD 0

def errorParts (r : Reading) : Nat := (r.errors.map (parts ·.2)).getD 0

def leave (r : Reading) (x : Indices) (e : Editor) : Session.Ending :=
  r.session.leave r.script r.ended x e

end Reading

end Workbench
