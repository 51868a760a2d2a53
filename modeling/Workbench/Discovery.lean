import Workbench.Host
import Workbench.Path.Normal
import Workbench.Settings
import Workbench.Toolchain

/-! # Discovery

Where a toolchain may be: a configured executable, below one of three home
directories, in a directory of the search path. The first candidate that
exists is taken; a configured executable is trusted without a look.
-/

namespace Workbench

/-- A place that was considered, with its path if it is defined. -/
structure Source where
  description : Text
  path : Option Text
deriving DecidableEq

structure Candidates where
  sources : List Source
  paths : List Text
  explicit : Option Text
deriving DecidableEq

namespace Discovery

structure HomeRule where
  variableName : Text
  segments : List Text

def homeRules : List HomeRule :=
  [⟨"REPROTO_HOME", []⟩, ⟨"HOME", [".local", "bin"]⟩, ⟨"USERPROFILE", [".local", "bin"]⟩]

def defined (t : Option Text) : Option Text := t.filter (!·.isEmpty)

def HomeRule.shown (r : HomeRule) : Text :=
  "$" ++ Text.join "/" (r.variableName :: r.segments ++ [Host.toolName])

def HomeRule.candidate (r : HomeRule) (exe base : Text) : Text :=
  Path.joinAll base (r.segments ++ [exe])

def undefined (name : Text) : Source := ⟨"$" ++ name ++ " is not defined", none⟩

def HomeRule.resolve (r : HomeRule) (exe : Text) (env : Environment) : Source × List Text :=
  match defined (env.get? r.variableName) with
  | some base => (⟨r.shown, some (r.candidate exe base)⟩, [r.candidate exe base])
  | none => (undefined r.variableName, [])

def explicitSource : Text := "reproto.executable (user configuration)"

def resolveExplicit (s : Settings) : Source × List Text :=
  match defined s.executable with
  | some path => (⟨explicitSource, some path⟩, [path])
  | none => (⟨explicitSource ++ " is not defined", none⟩, [])

def entries (searchPath : Text) : List Text := (searchPath.splitOn ':').filter (!·.isEmpty)

def resolveSearchPath (exe : Text) (env : Environment) : Source × List Text :=
  match defined (env.get? "PATH") with
  | some path => (⟨"$PATH", some path⟩, (entries path).map fun dir => Path.join dir exe)
  | none => (undefined "PATH", [])

def resolve (s : Settings) (env : Environment) (system : Text) : Candidates :=
  let exe := Host.executableName system
  let rules := [resolveExplicit s] ++ homeRules.map (·.resolve exe env) ++
    [resolveSearchPath exe env]
  ⟨rules.map (·.1), rules.flatMap (·.2), s.executable⟩

end Discovery

namespace Candidates

def descriptions (c : Candidates) : List Text := c.sources.map (·.description)

/-- The first path that exists, and the paths looked up on the way. -/
def firstExisting (pathExists : Text → Bool) : List Text → Option Text × List Text
  | [] => (none, [])
  | p :: rest =>
    if p.isEmpty then firstExisting pathExists rest
    else if pathExists p then (some p, [p])
    else
      let r := firstExisting pathExists rest
      (r.1, p :: r.2)

/-- The toolchain that is taken, and the paths looked up in order. -/
def select (c : Candidates) (root : Option Text) (pathExists : Text → Bool) :
    Option Toolchain × List Text :=
  match Discovery.defined c.explicit with
  | some path => (some ⟨path, root⟩, [])
  | none =>
    let r := firstExisting pathExists c.paths
    (r.1.map fun p => ⟨p, root⟩, r.2)

end Candidates

end Workbench
