import Workbench.Json.Value
import Workbench.Number.Shortest
import Workbench.Text.Quoted

/-! # Values in messages

How a value is shown to people: texts in quotes, constants by their names. A
text that is shown alone has no quotes.
-/

namespace Workbench.Json

def displayConstant (b : Bool) : Text := if b then "True" else "False"

mutual

/-- The value inside a message. -/
def Value.display : Value → Text
  | .null => "None"
  | .bool b => displayConstant b
  | .int n => Text.ofInt n
  | .float x => x.text
  | .str t => Text.quoted t
  | .arr [] => "[]"
  | .arr (v :: vs) => "[" ++ v.display ++ displayItems vs ++ "]"
  | .obj [] => "\x7b\x7d"
  | .obj ((k, v) :: ms) =>
    "\x7b" ++ Text.quoted k ++ ": " ++ v.display ++ displayMembers ms ++ "\x7d"

def displayItems : List Value → Text
  | [] => []
  | v :: vs => ", " ++ v.display ++ displayItems vs

def displayMembers : List (Text × Value) → Text
  | [] => []
  | (k, v) :: ms => ", " ++ Text.quoted k ++ ": " ++ v.display ++ displayMembers ms

end

namespace Value

def shown : Value → Text
  | .str t => t
  | v => v.display

/-- Empty values and zeros count as not given. -/
def isGiven : Value → Bool
  | .null => false
  | .bool b => b
  | .int n => n != 0
  | .float x => !x.isZero
  | .str t => !t.isEmpty
  | .arr items => !items.isEmpty
  | .obj members => !members.isEmpty

end Value

end Workbench.Json
