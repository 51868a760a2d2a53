import Workbench.Json.Value
import Workbench.Number.Shortest

/-! # Writing JSON

The written form is ASCII. On one line a space follows each comma and colon;
laid out over lines, every level is indented by two spaces and empty containers
stay closed.
-/

namespace Workbench.Json

def unitEscape (n : Nat) : Text := "\\u" ++ Text.hex 4 n

def escaped (c : CodePoint) : Text :=
  let n := c.val
  if c = '"' then "\\\""
  else if c = '\\' then "\\\\"
  else if c = '\n' then "\\n"
  else if c = '\r' then "\\r"
  else if c = '\t' then "\\t"
  else if n = 8 then "\\b"
  else if n = 12 then "\\f"
  else if 32 ≤ n ∧ n ≤ 126 then [c]
  else if n < 0x10000 then unitEscape n
  else unitEscape (0xD800 + (n - 0x10000) / 1024) ++ unitEscape (0xDC00 + (n - 0x10000) % 1024)

def quoted (t : Text) : Text := "\"" ++ t.flatMap escaped ++ "\""

def floatText : Binary64 → Text
  | .nan => "NaN"
  | .infinite s => if s then "-Infinity" else "Infinity"
  | x => x.text

/-- How containers are laid out: the text that begins an item at a level, the
one after a comma, and whether lines are used at all. -/
inductive Layout where
  | oneLine
  | lines
deriving DecidableEq

def Layout.lineBreak : Layout → Nat → Text
  | oneLine, _ => []
  | lines, level => .char '\n' :: List.replicate (2 * level) (.char ' ')

def Layout.separator : Layout → Nat → Text
  | oneLine, _ => ", "
  | lines, level => .char ',' :: lineBreak lines level

mutual

def Value.write (layout : Layout) (level : Nat) : Value → Text
  | .null => "null"
  | .bool b => if b then "true" else "false"
  | .int n => Text.ofInt n
  | .float x => floatText x
  | .str t => quoted t
  | .arr [] => "[]"
  | .arr (v :: vs) =>
    "[" ++ layout.lineBreak (level + 1) ++ v.write layout (level + 1) ++
      writeItems layout (level + 1) vs ++ layout.lineBreak level ++ "]"
  | .obj [] => "\x7b\x7d"
  | .obj ((k, v) :: ms) =>
    "\x7b" ++ layout.lineBreak (level + 1) ++ quoted k ++ ": " ++ v.write layout (level + 1) ++
      writeMembers layout (level + 1) ms ++ layout.lineBreak level ++ "\x7d"

def writeItems (layout : Layout) (level : Nat) : List Value → Text
  | [] => []
  | v :: vs => layout.separator level ++ v.write layout level ++ writeItems layout level vs

def writeMembers (layout : Layout) (level : Nat) : List (Text × Value) → Text
  | [] => []
  | (k, v) :: ms =>
    layout.separator level ++ quoted k ++ ": " ++ v.write layout level ++
      writeMembers layout level ms

end

namespace Value

def compact (v : Value) : Text := v.write .oneLine 0

def indented (v : Value) : Text := v.write .lines 0

end Value

end Workbench.Json
