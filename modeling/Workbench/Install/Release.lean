import Workbench.Fold
import Workbench.Install.Site
import Workbench.Text.Blank

/-! # Releases

The server of releases names the latest version on the first line of a listing
and has one archive for each release. An archive is written to a partial file
first, which takes its place once it is complete.
-/

namespace Workbench.Install

open Web (Address)

variable [Path.WorkingDirectory] [Web.Transport]

def releasesAddress : Address :=
  ⟨Address.secure, "storage.googleapis.com", "/reproto-releases", none, none⟩

def firstRelease (listing : Text) : Text := ((listing.cut '\n').1).strip

def versionOf (a : Web.Answered) : Except Fault Text :=
  match a.response.content with
  | .error f => .error (.web f)
  | .ok content =>
    let listing := Content.text content
    let version := firstRelease listing
    if !Web.isSuccess a.response.status then
      .error (.web (.status a.response.status a.address.text a.response.location?))
    else if version.isEmpty then
      .error (.failure (.install ("not a release: " ++ listing.quoted) (some a.address.text)))
    else .ok version

def latestVersion (s : Site) : Except Fault Text × Site :=
  let r := s.get "/releases"
  (r.1.bind versionOf, r.2)

/-! ## Downloads -/

/-- The file that a download is written to before it is complete. -/
def partialFile (dest : PathName) : PathName := dest.withName (dest.name ++ ".part")

/-- Writes the pieces of an answer to the partial file, which takes its place
once it is complete. -/
def save (r : Web.Response) (dest : PathName) (d : Disk) : Disk × Option Fault :=
  match d.write (partialFile dest) r.body.flatten with
  | .error f => (d, some (.disk f))
  | .ok d =>
    match r.broken with
    | some reason => (d, some (.web (.broken reason)))
    | none =>
      match d.move (partialFile dest) dest with
      | .error f => (d, some (.disk f))
      | .ok d => (d, none)

def receive (dest : PathName) (a : Web.Answered) (d : Disk) : Disk × Option Fault :=
  if Web.isSuccess a.response.status then save a.response dest d
  else (d, some (.failure
    (.install ("bad status code: " ++ Text.ofNat a.response.status) (some a.address.text))))

def makeRoom (dest : PathName) (s : Site) : Site × Option Fault :=
  let r := s.disk.ensureDirectory dest.parent
  s.change (r.1, r.2.map .disk)

def fetch (name : Text) (dest : PathName) (s : Site) : Site × Option Fault :=
  match s.get (.char '/' :: name) with
  | (.error f, s) => (s, some f)
  | (.ok a, s) => s.change (receive dest a s.disk)

def download (name : Text) (dest : PathName) (s : Site) : Site × Option Fault :=
  takeSteps s [makeRoom dest, fetch name dest]

end Workbench.Install
