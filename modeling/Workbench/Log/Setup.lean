import Workbench.Log.Level
import Workbench.Path.Normal

/-! # Log setup

Where messages go: to the error stream, in colours or not, and to a file as
well where one is named. The output of the toolchain is shown whatever the
level, and three chatty sources are kept quiet.
-/

namespace Workbench.Log

inductive Style where
  | plain
  | colored
deriving DecidableEq

inductive Sink where
  | errorStream (style : Style)
  /-- A file, which is moved aside when it has grown long. -/
  | rotatingFile (path : Text) (style : Style)
deriving DecidableEq

def outputSource : Text := "reproto_ide.output"

def editorSource : Text := "reproto_ide.editor"

structure Setup where
  level : Level
  sinks : List Sink
  /-- Sources with a level of their own. -/
  sources : List (Text × Level)
deriving DecidableEq

def fixedSources : List (Text × Level) :=
  [(outputSource, Level.info), ("httpx", Level.warning), ("pygls", Level.warning)]

/-- The setup for a level by name and a file. Colours are for terminals. -/
def Setup.of (level : Text) (file : Option Text) (colored : Bool) : Setup where
  level := Level.ofName level
  sinks :=
    let first := Sink.errorStream (if colored then .colored else .plain)
    first :: ((file.filter (!·.isEmpty)).map (.rotatingFile · .plain)).toList
  sources := fixedSources

def Setup.files (s : Setup) : List Text :=
  s.sinks.filterMap fun
    | .rotatingFile path _ => some path
    | .errorStream _ => none

end Workbench.Log
