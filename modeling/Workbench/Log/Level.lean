import Workbench.Text.Basic

/-! # Log levels

A level is a number; six numbers have a name, and two of these names have an
older spelling.
-/

namespace Workbench.Log

abbrev Level := Int

namespace Level

def debug : Level := 10

def info : Level := 20

def warning : Level := 30

def error : Level := 40

def critical : Level := 50

def named : List (Level × Text) :=
  [(0, "NOTSET"), (debug, "DEBUG"), (info, "INFO"), (warning, "WARNING"), (error, "ERROR"),
    (critical, "CRITICAL")]

def synonyms : List (Level × Text) := [(warning, "WARN"), (critical, "FATAL")]

def name (l : Level) : Text :=
  match named.find? (·.1 == l) with
  | some n => n.2
  | none => "Level " ++ Text.ofInt l

/-- The capital of a letter, where it is ASCII; two letters beyond ASCII, the
dotless i and the long s, have such capitals. -/
def capital : CodePoint → CodePoint
  | .char 'ı' => 'I'
  | .char 'ſ' => 'S'
  | .char c => .char c.toUpper
  | s => s

/-- The level of a name, written in capitals or not; no name at all means `INFO`. -/
def ofName (t : Text) : Level :=
  match (named ++ synonyms).find? (·.2 == t.map capital) with
  | some n => n.1
  | none => info

end Level

end Workbench.Log
