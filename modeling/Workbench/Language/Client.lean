import Workbench.Editor
import Workbench.Json.Display
import Workbench.Language.Server
import Workbench.Settings
import Workbench.Toolchain

/-! # Language clients

A client starts a server, tells it of documents and stops it. Servers are
numbered in the order of their starts, and every event is kept with the number
of its server.
-/

namespace Workbench

open Json (Value)
open Workbench.Language

variable [Path.WorkingDirectory]

structure LanguageClient where
  toolchain : Toolchain
  settings : Settings
  roots : List Text
  editor : Editor := {}
  /-- How many servers were tried to start. -/
  servers : Nat := 0
  /-- The server in use. -/
  current : Option Nat := none
  /-- A server once told what it can do. -/
  capable : Bool := false
  /-- All events, each with the number of its server. -/
  events : List (Nat × Event) := []

namespace LanguageClient

def create (t : Toolchain) (s : Settings) (roots : List Text) (e : Editor) : LanguageClient :=
  { toolchain := t, settings := s, roots := roots.map Path.absolute, editor := e }

def command (c : LanguageClient) : List Text := c.toolchain.command c.settings.languageServerArgs

def isRunning (c : LanguageClient) : Bool := c.current.isSome

def record (c : LanguageClient) (server : Nat) (es : List Event) : LanguageClient :=
  { c with events := c.events ++ es.map (server, ·) }

def notify (c : LanguageClient) (e : Event) : LanguageClient :=
  match c.current with
  | none => c
  | some server => c.record server [e]

/-! ## Starting -/

/-- The failure that a handshake ends in, unless the server is ready. -/
def handshakeFailure (c : LanguageClient) : Handshake → Option Failure
  | .ready => none
  | .error message => some (.transport c.command ("initialize failed: " ++ message))
  | .failure (.transport command reason) => some (.transport command reason)
  | .failure f => some (.transport c.command ("initialize failed: " ++ f.message))
  | .exited code =>
    some (.transport c.command ("language server exited before initialize (status " ++
      Failure.statusText code ++ ")"))
  | .silent =>
    some (.transport c.command ("language server did not answer initialize within " ++
      c.settings.initTimeout.general ++ "s"))

def adopt (c : LanguageClient) (server : Nat) : LanguageClient :=
  { c.record server [.greeted] with current := some server, capable := true }

def greet (c : LanguageClient) (server : Nat) (s : Language.Script) (folders : List Folder) :
    LanguageClient × Option Failure :=
  let c := c.record server [.greet (folders.head?.map (·.uri)) folders]
  match c.handshakeFailure s.handshake with
  | some f => (c.record server [.stop], some f)
  | none => (c.adopt server, none)

def start (c : LanguageClient) (s : Language.Script) : LanguageClient × Except Problem Unit :=
  let server := c.servers
  let c := { c with servers := server + 1 }.record server [.start c.command c.toolchain.root]
  match s.startError, foldersOf c.roots with
  | some reason, _ => (c, .error (.failure (.transport c.command reason)))
  | none, .error u => (c, .error (.crash (.unencodable u)))
  | none, .ok folders =>
    match c.greet server s folders with
    | (c, some f) => (c, .error (.failure f))
    | (c, none) => (c, .ok ())

def launch (c : LanguageClient) : Language.Launch → LanguageClient × Except Problem Unit
  | .error message => (c, .error (.crash (.malformed message)))
  | .ok s => c.start s

/-! ## Documents -/

def didOpen (c : LanguageClient) (uri content : Text) : LanguageClient :=
  c.notify (.didOpen uri languageId 1 content)

def didSave (c : LanguageClient) (uri : Text) : LanguageClient := c.notify (.didSave uri)

def uriParameters : List Text := ["uri", "url"]

/-- The document that a server asks to open: the first parameter that is given. -/
def requestedUri (params : Value) : Option Text :=
  (uriParameters.findSome? fun name => (params.get? name).filter (·.isGiven)).map (·.shown)

def openRequest (c : LanguageClient) (params : Value) : LanguageClient :=
  match requestedUri params with
  | some uri => { c with editor := c.editor.openDocument uri }
  | none => c

/-! ## Stopping -/

/-- Shuts the server in use down and stops it, whether it shuts down or not. -/
def stop (c : LanguageClient) (s : Language.Script) : LanguageClient :=
  match c.current with
  | none => c
  | some server =>
    { c with current := none }.record server
      (if s.shutdownFails then [.shutdown, .stop] else [.shutdown, .exit, .stop])

end LanguageClient

end Workbench
