import Workbench.Disk
import Workbench.Editor
import Workbench.Web.Exchange

/-! # Installation sites

What an installation works with, and what may go wrong with it: a client of
the release server, a disk, an editor to tell how far it is.
-/

namespace Workbench.Install

variable [Path.WorkingDirectory] [Web.Transport]

inductive Fault where
  | failure (f : Failure)
  | web (f : Web.Fault)
  | disk (f : Disk.Fault)
  | archive (f : Archive.Fault)
  | crash (c : Crash)

namespace Fault

def message : Fault → Text
  | failure f => f.message
  | web f => f.message
  | disk f => f.message
  | archive f => f.message
  | crash c => c.message

/-- The fault is told to the editor; others end what is being done. -/
def isTold : Fault → Bool
  | failure _ => true
  | web (.badAddress _) => false
  | web _ => true
  | disk f => f.trouble != .zeroCharacter
  | archive .truncated => false
  | archive _ => true
  | crash _ => false

end Fault

structure Site where
  client : Web.Client
  disk : Disk := {}
  editor : Editor := {}

namespace Site

def tell (s : Site) (line : Text) : Site × Option Fault :=
  let r := s.editor.appendLine line
  ({ s with editor := r.1 }, r.2.map .crash)

def get (s : Site) (reference : Text) : Except Fault Web.Answered × Site :=
  let r := s.client.get reference
  (r.1.mapError .web, { s with client := r.2 })

def change (s : Site) (r : Disk × Option Fault) : Site × Option Fault :=
  ({ s with disk := r.1 }, r.2)

end Site

end Workbench.Install
