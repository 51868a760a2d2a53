import Workbench.Text.Basic

/-! # Blanks

The code points that separate words: the characters of Unicode's white space
and the four information separators. A word is a longest run without one.
-/

namespace Workbench

namespace CodePoint

/-- White space of Unicode, and U+001C to U+001F. -/
def isBlank (c : CodePoint) : Bool :=
  let n := c.val
  (9 ≤ n && n ≤ 13) || (0x1C ≤ n && n ≤ 0x20) || n == 0x85 || n == 0xA0 || n == 0x1680 ||
    (0x2000 ≤ n && n ≤ 0x200A) || n == 0x2028 || n == 0x2029 || n == 0x202F || n == 0x205F ||
    n == 0x3000

end CodePoint

namespace Text

def isBlank (t : Text) : Bool := t.all (·.isBlank)

def strip (t : Text) : Text := t.trim (·.isBlank)

def words (t : Text) : List Text :=
  (t.foldr (fun c pieces =>
    if c.isBlank then [] :: pieces
    else match pieces with
      | [] => [[c]]
      | piece :: rest => (c :: piece) :: rest) [[]]).filter (!·.isEmpty)

end Text

end Workbench
