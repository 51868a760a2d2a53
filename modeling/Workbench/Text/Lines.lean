import Workbench.Text.Blank

/-! # Lines

A line ends with a line feed; carriage returns before it belong to the ending.
-/

namespace Workbench.Text

def lineFeed : CodePoint := .char '\n'

def carriageReturn : CodePoint := .char '\r'

/-- The line without the carriage returns at its end. -/
def chomp (line : Text) : Text := line.trimRight (· == carriageReturn)

/-- The pieces between line feeds, the unfinished last one included. -/
def rawLines (t : Text) : List Text := t.splitOn lineFeed

def contentLines (t : Text) : List Text := (t.rawLines.map chomp).filter (!·.isBlank)

end Workbench.Text
