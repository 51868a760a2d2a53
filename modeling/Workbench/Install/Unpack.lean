import Workbench.Fold
import Workbench.Install.Plan
import Workbench.Install.Site

/-! # Unpacking

Members of an archive are checked and written one by one. A member that is not
the executable ends the unpacking, and what was written before it stays.
-/

namespace Workbench.Install

variable [Path.WorkingDirectory] [Web.Transport]

def isExecutable (executable : Text) (m : Archive.Member) : Bool :=
  Path.normal m.name == executable && m.kind == .file

/-- Writes one member; one that is not the executable does not belong. -/
def unpackMember (executable : Text) (dest : PathName) (d : Disk) (m : Archive.Member) :
    Disk × Option Fault :=
  if isExecutable executable m then
    match d.write dest (Content.ofOctets m.data) with
    | .error f => (d, some (.disk f))
    | .ok d => (d, none)
  else (d, some (.failure (failed ("rogue file in archive: " ++ m.name))))

def grant (dest : PathName) (d : Disk) : Disk × Option Fault :=
  match d.makeExecutable dest with
  | .error f => (d, some (.disk f))
  | .ok d => (d, none)

def unpackMembers (executable : Text) (dest : PathName) (d : Disk)
    (members : List Archive.Member) : Disk × Option Fault :=
  match foldUntil (unpackMember executable dest) d members with
  | (d, some f) => (d, some f)
  | (d, none) => grant dest d

def membersOf (archive : PathName) (d : Disk) : Except Fault (List Archive.Member) :=
  match d.read archive with
  | .error f => .error (.disk f)
  | .ok content => (Archive.read content).mapError .archive

def unpack (archive : PathName) (executable : Text) (dest : PathName) (d : Disk) :
    Disk × Option Fault :=
  match d.ensureDirectory dest.parent with
  | (d, some f) => (d, some (.disk f))
  | (d, none) =>
    match membersOf archive d with
    | .error f => (d, some f)
    | .ok members => unpackMembers executable dest d members

end Workbench.Install
