import Workbench.Editor
import Workbench.Log.Setup
import Workbench.Stream.LineBuffer

/-! # Editing without an editor

What an editor would show goes to the log. Text for the output channel comes
in pieces and is logged by lines; an unfinished line is logged before anything
else goes to the channel.
-/

namespace Workbench.Log

structure Entry where
  source : Text
  level : Level
  message : Text
deriving DecidableEq

structure Channel where
  /-- The unfinished line. -/
  rest : LineBuffer := {}
  entries : List Entry := []
  status : Text := []
  errors : List Text := []
  opened : List Text := []

namespace Channel

def log (c : Channel) (source : Text) (level : Level) (messages : List Text) : Channel :=
  { c with entries := c.entries ++ messages.map (⟨source, level, ·⟩) }

def output (c : Channel) (lines : List Text) : Channel := c.log outputSource Level.info lines

def notice (c : Channel) (level : Level) (message : Text) : Channel :=
  c.log editorSource level [message]

def append (c : Channel) (t : Text) : Channel :=
  let r := c.rest.appendText t
  { c with rest := r.2 }.output r.1

def flush (c : Channel) : Channel :=
  let r := c.rest.flush
  { c with rest := r.2 }.output (if r.1.isEmpty then [] else [r.1])

def appendLine (c : Channel) (t : Text) : Channel := c.flush.output [t]

def showOutput (c : Channel) : Channel := c.flush

def showError (c : Channel) (t : Text) : Channel :=
  { c with errors := c.errors ++ [t] }.notice Level.error ("[reproto] " ++ t)

def showInfo (c : Channel) (t : Text) : Channel := c.notice Level.info ("[reproto] " ++ t)

def setStatus (c : Channel) (t : Text) : Channel :=
  { c with status := t }.notice Level.info ("[reproto:status] " ++ t)

def openDocument (c : Channel) (uri : Text) : Channel :=
  { c with opened := c.opened ++ [uri] }.notice Level.info ("[reproto] open requested: " ++ uri)

def tell (c : Channel) : Editor.Call → Channel
  | .append t => c.append t
  | .appendLine t => c.appendLine t
  | .showOutput => c.showOutput
  | .showError t => c.showError t
  | .showInfo t => c.showInfo t
  | .setStatus t => c.setStatus t
  | .confirmInstall => c
  | .openDocument uri => c.openDocument uri

def replay (c : Channel) (calls : List Editor.Call) : Channel := calls.foldl tell c

end Channel

end Workbench.Log
