import Workbench.Log.Moment
import Workbench.Log.Setup
import Workbench.Log.Template

/-! # Log lines

A record becomes one line: moment, level, source and message. On a terminal
the level and the message have the colour of the level.
-/

namespace Workbench.Log

structure Message where
  source : Text
  level : Level
  template : Text
  args : List Json.Value := []
  /-- Seconds since the beginning of 1970. -/
  moment : Int
  /-- The text of an error that goes with the message. -/
  trouble : Option Text := none

namespace Message

/-- The name of a source after its last dot, at most twelve code points of it. -/
def sourceName (m : Message) : Text := ((Text.splitOn '.' m.source).getLastD []).take 12

def troubleText (t : Text) : Text := if t.isEmpty then "ValueError" else "ValueError: " ++ t

/-- The message with its arguments filled in. A template without arguments is
left as it is. -/
def text (m : Message) : Except Template.Fault Text := do
  let t ← if m.args.isEmpty then .ok m.template else Template.fill m.template m.args
  return match m.trouble with
    | none => t
    | some e => t ++ "\n" ++ troubleText e

def levelColumn (m : Message) : Text := Text.padRight 8 (Level.name m.level)

def sourceColumn (m : Message) : Text := "[" ++ Text.padLeft 12 ' ' m.sourceName ++ "]"

def look (code : Text) : Text := "\x1b[" ++ code ++ "m"

def looks : List (Level × Text) :=
  [(Level.debug, look "36"), (Level.info, look "32"), (Level.warning, look "33"),
    (Level.error, look "31"), (Level.critical, look "1;31")]

def levelLook (l : Level) : Text := ((looks.find? (·.1 == l)).map (·.2)).getD []

def shownIn (style t : Text) : Text := style ++ t ++ look "0"

def faint (t : Text) : Text := shownIn (look "2") t

def line (style : Style) (m : Message) : Except Template.Fault Text := do
  let t ← m.text
  match style with
  | .plain =>
    return Text.join " " [dateText m.moment, clockText m.moment, m.levelColumn, m.sourceColumn, t]
  | .colored =>
    let own := shownIn (levelLook m.level)
    return Text.join " "
      [faint (clockText m.moment), own m.levelColumn, faint m.sourceColumn, own t]

end Message

end Workbench.Log
