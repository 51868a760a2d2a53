import Workbench.Install.Release
import Workbench.Install.Unpack

/-! # Installation

Finds out the latest release, downloads its archive and unpacks the
executable. An archive that is there is not downloaded again, an executable
that is there is not unpacked again.
-/

namespace Workbench.Install

variable [Path.WorkingDirectory] [Web.Transport]

def unlessPresent (p : PathName) (steps : List (Site → Site × Option Fault)) (s : Site) :
    Site × Option Fault :=
  match s.disk.contains p with
  | .error f => (s, some (.disk f))
  | .ok true => (s, none)
  | .ok false => takeSteps s steps

namespace Plan

def announce (p : Plan) (s : Site) : Site × Option Fault :=
  s.tell ("install: detected tuple: " ++ p.release)

def obtain (p : Plan) : Site → Site × Option Fault :=
  unlessPresent p.archive
    [(·.tell ("install: downloading: " ++ p.archive.text)), download p.archiveName p.archive]

def extract (p : Plan) : Site → Site × Option Fault :=
  unlessPresent p.binary
    [(·.tell ("install: extracting: " ++ p.binary.text)),
      fun s => s.change (unpack p.archive p.executable p.binary s.disk),
      (·.tell ("Wrote binary: " ++ p.binary.text))]

def finish (p : Plan) (s : Site) : Site × Option Fault :=
  match s.change (grant p.binary s.disk) with
  | (s, some f) => (s, some f)
  | (s, none) => s.tell "install: done!"

def carryOut (p : Plan) (s : Site) : Site × Option Fault :=
  takeSteps s [p.announce, p.obtain, p.extract, p.finish]

end Plan

/-- Installs the latest release; the result is the executable. -/
def run (u : User) (s : Site) : Except Fault PathName × Site :=
  match latestVersion s with
  | (.error f, s) => (.error f, s)
  | (.ok version, s) =>
    match Plan.of version u with
    | .error f => (.error (.failure f), s)
    | .ok plan =>
      match plan.carryOut s with
      | (s, some f) => (.error f, s)
      | (s, none) => (.ok plan.binary, s)

def clientOptions : Web.Options :=
  { base := releasesAddress, follows := true, agent := some "reproto-ide/1.0", timeout := 120 }

def runAndClose (u : User) (s : Site) : Except Fault PathName × Site :=
  let r := run u s
  (r.1, { r.2 with client := r.2.client.close })

def told (r : Except Fault PathName × Site) : Except Fault Bool × Site :=
  match r with
  | (.ok _, s) => (.ok true, s)
  | (.error f, s) =>
    if f.isTold then (.ok false, { s with editor := s.editor.showError f.message })
    else (.error f, s)

end Workbench.Install
