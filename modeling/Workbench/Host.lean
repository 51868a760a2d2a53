import Workbench.Text.Case

/-! # Hosts

How releases name the operating system and the processor, and what the
executable of the toolchain is called.
-/

namespace Workbench.Host

def toolName : Text := "reproto"

inductive Fault where
  | platform (system : Text)
  | arch (machine : Text)
deriving DecidableEq

def Fault.message : Fault → Text
  | platform system => "unsupported platform: " ++ system
  | arch machine => "unsupported arch: " ++ machine

/-- The beginnings of system names and what releases call these systems. -/
def platforms : List (Text × Text) :=
  [("linux", "linux"), ("darwin", "osx"), ("win32", "windows")]

def arches : List Text := ["x86_64", "amd64", "x64"]

def systemName (system : Text) : Text := if system.isEmpty then "linux" else system

def platform (system : Text) : Except Fault Text :=
  match platforms.find? fun p => p.1.isPrefixOf (systemName system) with
  | some p => .ok p.2
  | none => .error (.platform (systemName system))

def machineName (machine : Text) : Text :=
  if machine.isEmpty then "x86_64" else machine.lower

def arch (machine : Text) : Except Fault Text :=
  if machineName machine ∈ arches then .ok "x86_64" else .error (.arch (machineName machine))

def isWindows (system : Text) : Bool := (Text.ofString "win").isPrefixOf (systemName system)

def executableName (system : Text) : Text :=
  if isWindows system then toolName ++ ".exe" else toolName

end Workbench.Host
