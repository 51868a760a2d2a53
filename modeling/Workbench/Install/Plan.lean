import Workbench.Failure
import Workbench.Host
import Workbench.Path.Name
import Workbench.Settings

/-! # Installation plans

What the archive of a release is called, where it is kept, and where the
executable goes: the cache of releases is below the data directory, and the
executable is in the directory of the user's own programs.
-/

namespace Workbench.Install

structure User where
  env : Environment
  system : Text := []
  machine : Text := []
deriving DecidableEq

structure Plan where
  version : Text
  /-- Version, operating system and processor. -/
  release : Text
  archiveName : Text
  archive : PathName
  binary : PathName
  executable : Text
deriving DecidableEq

def failed (reason : Text) : Failure := .install reason none

namespace User

def home (u : User) : Except Failure PathName :=
  match (u.env.get? "HOME").filter (!·.isEmpty) with
  | some home => .ok (.ofText home)
  | none => .error (failed "HOME: not an environment variable")

/-- What the releases for a user are called after their version. -/
def target (u : User) : Except Failure Text :=
  match Host.platform u.system, Host.arch u.machine with
  | .error f, _ => .error (failed f.message)
  | .ok _, .error f => .error (failed f.message)
  | .ok platform, .ok arch => .ok (platform ++ "-" ++ arch)

def dataHome (u : User) (home : PathName) : PathName :=
  match (u.env.get? "XDG_DATA_HOME").filter (!·.isEmpty) with
  | some dir => .ofText dir
  | none => (home.child ".local").child "share"

end User

def Plan.of (version : Text) (u : User) : Except Failure Plan := do
  let home ← u.home
  let release := version ++ "-" ++ (← u.target)
  let archiveName := "reproto-" ++ release ++ ".tar.gz"
  let executable := Host.executableName u.system
  return { version, release, archiveName, executable
           archive := ((u.dataHome home).child "releases").child archiveName
           binary := ((home.child ".local").child "bin").child executable }

end Workbench.Install
