import Workbench.Failure

/-! # Editors

What an editor is told: text for its output channel, messages, a status, a
question, documents to open. All calls are kept in order. The output channel of
an editor may refuse lines and pieces of text.
-/

namespace Workbench

namespace Editor

inductive Call where
  | append (t : Text)
  | appendLine (t : Text)
  | showOutput
  | showError (t : Text)
  | showInfo (t : Text)
  | setStatus (t : Text)
  | confirmInstall
  | openDocument (uri : Text)
deriving DecidableEq

/-- How text comes to the output channel: as a piece that need not end a line, or as a line. -/
inductive Entry where
  | piece
  | line
deriving DecidableEq

def Entry.call : Entry → Text → Call
  | piece => .append
  | line => .appendLine

end Editor

structure Editor where
  /-- The answer when asked whether to install. -/
  confirms : Bool := false
  /-- The output channel takes no lines. -/
  closed : Bool := false
  /-- Whether the channel takes the next lines, one by one; `closed` counts behind them. -/
  nextLines : List Bool := []
  /-- Whether the channel takes the next pieces of text, one by one; it takes all behind them. -/
  nextPieces : List Bool := []
  calls : List Editor.Call := []
deriving DecidableEq, Inhabited

namespace Editor

def call (e : Editor) (c : Call) : Editor := { e with calls := e.calls ++ [c] }

/-- Whether the output channel takes the next entries of a kind. -/
def next (e : Editor) : Entry → List Bool
  | .piece => e.nextPieces
  | .line => e.nextLines

def takesRest (e : Editor) : Entry → Bool
  | .piece => true
  | .line => !e.closed

def takes (e : Editor) (k : Entry) : Bool := (e.next k).headD (e.takesRest k)

/-- The editor behind the answers to some entries. -/
def behind (e : Editor) (n : Nat) : Entry → Editor
  | .piece => { e with nextPieces := e.nextPieces.drop n }
  | .line => { e with nextLines := e.nextLines.drop n }

def add (e : Editor) (k : Entry) (t : Text) : Editor × Option Crash :=
  if e.takes k then ((e.behind 1 k).call (k.call t), none)
  else (e.behind 1 k, some .closedOutput)

def append (e : Editor) (t : Text) : Editor × Option Crash := e.add .piece t

def appendLine (e : Editor) (t : Text) : Editor × Option Crash := e.add .line t

def showOutput (e : Editor) : Editor := e.call .showOutput

def showError (e : Editor) (t : Text) : Editor := e.call (.showError t)

def showInfo (e : Editor) (t : Text) : Editor := e.call (.showInfo t)

def setStatus (e : Editor) (t : Text) : Editor := e.call (.setStatus t)

def confirmInstall (e : Editor) : Editor := e.call .confirmInstall

def openDocument (e : Editor) (uri : Text) : Editor := e.call (.openDocument uri)

/-! ## What an editor was told -/

def output (calls : List Call) : Text :=
  calls.flatMap fun
    | .append t => t
    | _ => []

def lines (calls : List Call) : List Text :=
  calls.filterMap fun
    | .appendLine t => some t
    | _ => none

def errors (calls : List Call) : List Text :=
  calls.filterMap fun
    | .showError t => some t
    | _ => none

def infos (calls : List Call) : List Text :=
  calls.filterMap fun
    | .showInfo t => some t
    | _ => none

def statuses (calls : List Call) : List Text :=
  calls.filterMap fun
    | .setStatus t => some t
    | _ => none

def opened (calls : List Call) : List Text :=
  calls.filterMap fun
    | .openDocument uri => some uri
    | _ => none

end Editor

end Workbench
