import Workbench.Build.Schedule
import Workbench.Discovery.Locate
import Workbench.Language.Client
import Workbench.Toolchain.Invoke

/-! # Activation

A toolchain is located, its version decides on the tier, and the tier decides
who works: builds of the workspace roots, or a language server.
-/

namespace Workbench

variable [Surroundings]

inductive Engine where
  | builds (s : Scheduler)
  | server (c : LanguageClient) (w : World)

namespace Engine

def editor : Engine → Editor
  | builds s => s.coordinator.editor
  | server c _ => c.editor

def world : Engine → World
  | builds s => s.world
  | server _ w => w

def withEditor (e : Engine) (editor : Editor) (w : World) : Engine :=
  match e with
  | builds s => builds { s with coordinator := { s.coordinator with editor }, world := w }
  | server c _ => server { c with editor } w

def tier : Engine → Tier
  | builds _ => .simple
  | server .. => .languageClient

end Engine

structure Activation where
  toolchain : Toolchain
  version : Option Version
  engine : Engine

namespace Activation

def tier (a : Activation) : Tier := a.engine.tier

def versionText : Option Version → Text
  | some v => v.text
  | none => "unknown version"

def statusText (version : Option Version) (tier : Tier) : Text :=
  "reproto " ++ versionText version ++ " (" ++ tier.name ++ ")"

def status (a : Activation) : Text := statusText a.version a.tier

/-! ## Starting -/

structure Request where
  settings : Settings
  env : Environment
  system : Text := "linux"
  roots : List Text := []
  installer : Option Installer := none
  server : Language.Launch := .ok {}

namespace Request

def rootPaths (r : Request) : List Text := r.roots.map Path.absolute

def search (r : Request) : Search := ⟨r.settings, r.env, r.system, r.rootPaths.head?⟩

end Request

def startBuilds (r : Request) (t : Toolchain) (e : Editor) (w : World) : Scheduler :=
  let c := Coordinator.create t r.rootPaths r.settings.singleFlight e
  let s : Scheduler := { coordinator := c, world := w }
  (s.buildAll none).1

def startServer (r : Request) (t : Toolchain) (e : Editor) :
    LanguageClient × Except Crash Bool :=
  match (LanguageClient.create t r.settings r.rootPaths e).launch r.server with
  | (c, .ok ()) => (c, .ok true)
  | (c, .error (.failure f)) => ({ c with editor := c.editor.showError f.message }, .ok false)
  | (c, .error (.crash p)) => (c, .error p)

/-- How an activation went. An engine that was tried is kept also when it failed. -/
structure Outcome where
  result : Except Crash (Option Activation)
  tried : Option Engine
  editor : Editor
  world : World

/-- Starts the tier of a toolchain whose version is known, or known not to be found. -/
def startTier (r : Request) (t : Toolchain) (version : Option Version) (e : Editor) (w : World) :
    Outcome :=
  let tier := r.settings.tier version
  let e := e.setStatus (statusText version tier)
  match tier with
  | .simple =>
    let s := startBuilds r t e w
    ⟨.ok (some ⟨t, version, .builds s⟩), some (.builds s), e, w⟩
  | .languageClient =>
    let out := startServer r t e
    let engine : Engine := .server out.1 w
    match out.2 with
    | .ok true => ⟨.ok (some ⟨t, version, engine⟩), some engine, out.1.editor, w⟩
    | .ok false => ⟨.ok none, some engine, out.1.editor, w⟩
    | .error c => ⟨.error c, some engine, out.1.editor, w⟩

def use (r : Request) (t : Toolchain) (e : Editor) (w : World) : Outcome :=
  match t.detect Host.toolName w with
  | (.error c, w) => ⟨.error c, none, e, w⟩
  | (.ok version, w) =>
    match e.appendLine ("using reproto from `" ++ t.binary ++ "`") with
    | (e, some c) => ⟨.error c, none, e, w⟩
    | (e, none) => startTier r t version e w

def start (r : Request) (e : Editor) (w : World) : Outcome :=
  match r.search.locate r.installer e w with
  | (.error c, e, w) => ⟨.error c, none, e, w⟩
  | (.ok none, e, w) => ⟨.ok none, none, e, w⟩
  | (.ok (some t), e, w) => use r t e w

/-! ## Working -/

def save (a : Activation) (uri : Text) : Except Crash Activation :=
  match a.engine with
  | .builds s => (s.rebuild uri).map fun r => { a with engine := .builds r.1 }
  | .server c w => .ok { a with engine := .server (c.didSave uri) w }

def fileText (w : World) (uri : Text) : Except Crash Text := do
  let path ← (Uri.toPath uri).mapError .reference
  let name := (PathName.ofText path).text
  match w.content? name with
  | some t => return t
  | none => throw (.missingFile name)

/-- A document was opened; a server gets its text, from the file where none is given. -/
def openDocument (a : Activation) (uri : Text) (content : Option Text) :
    Except Crash Activation :=
  match a.engine with
  | .builds s => (s.rebuild uri).map fun r => { a with engine := .builds r.1 }
  | .server c w => do
    let t ← match content with
      | some t => .ok t
      | none => fileText w uri
    return { a with engine := .server (c.didOpen uri t) w }

def beginProject (a : Activation) : Except Crash Bool × Activation :=
  let r := a.toolchain.runInitCommand a.engine.editor a.engine.world
  (r.1, { a with engine := a.engine.withEditor r.2.1 r.2.2 })

/-- Waits for builds, or stops the server. -/
def close (a : Activation) (server : Language.Script) : Activation :=
  match a.engine with
  | .builds s => { a with engine := .builds s.run }
  | .server c w => { a with engine := .server (c.stop server) w }

end Activation

end Workbench
