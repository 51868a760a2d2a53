import Workbench.Failure

/-! # Language servers

What a language server is sent and how it answers, by script: whether it can
be started, what becomes of the handshake, whether it shuts down.
-/

namespace Workbench.Language

inductive Handshake where
  | ready
  /-- It answers with an error. -/
  | error (message : Text)
  /-- The connection fails. -/
  | failure (f : Failure)
  /-- It ends with a status before it answers. -/
  | exited (code : Option Int)
  | silent

structure Script where
  /-- Why the system does not start it. -/
  startError : Option Text := none
  handshake : Handshake := .ready
  shutdownFails : Bool := false

/-- What becomes of a command: a server that does so, or why the command or the directory cannot
be handed to the system. -/
abbrev Launch := Except Text Script

structure Folder where
  uri : Text
  name : Text
deriving DecidableEq

inductive Event where
  | start (command : List Text) (directory : Option Text)
  | greet (root : Option Text) (folders : List Folder)
  | greeted
  | didOpen (uri : Text) (language : Text) (version : Nat) (content : Text)
  | didSave (uri : Text)
  | shutdown
  | exit
  | stop
deriving DecidableEq

def languageId : Text := "reproto"

def folderOf (root : Text) : Except Uri.Unencodable Folder :=
  let p := PathName.ofText root
  (Uri.ofPath p).map fun uri => ⟨uri, p.name⟩

def foldersOf (roots : List Text) : Except Uri.Unencodable (List Folder) := roots.mapM folderOf

def backtrace : Text × Text := ("RUST_BACKTRACE", "1")

def serverEnvironment (base : OrderedMap Text Text) : OrderedMap Text Text :=
  base.insert backtrace.1 backtrace.2

end Workbench.Language
