import Workbench.Discovery
import Workbench.Editor
import Workbench.Fold
import Workbench.World

/-! # Locating a toolchain

A discovery among the files there are. One that fails is reported to the
editor, which may ask for an installation; after a successful one the search
is made once more.
-/

namespace Workbench

variable [Surroundings]

abbrev Told (α : Type) := Except Crash α × Editor × World

/-- Tries to install a toolchain, and tells whether it did. -/
abbrev Installer := Editor → World → Told Bool

structure Search where
  settings : Settings
  env : Environment
  system : Text := "linux"
  root : Option Text := none

namespace Search

def candidates (s : Search) : Candidates := Discovery.resolve s.settings s.env s.system

def find? (s : Search) (w : World) : Option Toolchain := (s.candidates.select s.root w.isFile).1

def failure (s : Search) : Failure := .discovery s.candidates.descriptions

def reportLines (s : Search) : List Text :=
  (s.failure.message ++ "!") :: s.failure.lines?.getD []

def reportFailure (s : Search) (e : Editor) : Editor × Option Crash :=
  match foldUntil Editor.appendLine e s.reportLines with
  | (e, some c) => (e, some c)
  | (e, none) => (e.showOutput.showError "Usable `reproto` command could not be found!", none)

def attempt (s : Search) (e : Editor) (w : World) : Told (Option Toolchain) :=
  match s.find? w with
  | some t => (.ok (some t), e, w)
  | none =>
    match s.reportFailure e with
    | (e, some c) => (.error c, e, w)
    | (e, none) => (.ok none, e, w)

def again (s : Search) (e : Editor) (w : World) : Told (Option Toolchain) :=
  match e.appendLine "reactivating extension" with
  | (e, some c) => (.error c, e, w)
  | (e, none) => s.attempt e w

def offer (s : Search) (install : Installer) (e : Editor) (w : World) :
    Told (Option Toolchain) :=
  let e := e.confirmInstall
  if !e.confirms then (.ok none, e, w)
  else match install e w with
    | (.error c, e, w) => (.error c, e, w)
    | (.ok false, e, w) => (.ok none, e, w)
    | (.ok true, e, w) => s.again e w

/-- Searches, and offers one installation where there is an installer. -/
def locate (s : Search) (installer : Option Installer) (e : Editor) (w : World) :
    Told (Option Toolchain) :=
  match s.attempt e w, installer with
  | (.ok none, e, w), some install => s.offer install e w
  | r, _ => r

end Search

end Workbench
