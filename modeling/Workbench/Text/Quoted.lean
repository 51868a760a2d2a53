import Workbench.Text.Printable

/-! # Quoted text

A text between single quotes, or between double quotes when it holds a single
quote and no double one. Backslash, line feed, carriage return and tab have
short escapes, and other code points that are not printable have numeric ones.
-/

namespace Workbench

def CodePoint.quotedAs (quote : Char) (c : CodePoint) : Text :=
  let n := c.val
  if c = .char quote ∨ c = '\\' then [.char '\\', c]
  else if c = '\n' then "\\n"
  else if c = '\r' then "\\r"
  else if c = '\t' then "\\t"
  else if c.isPrintable then [c]
  else if n < 0x100 then "\\x" ++ Text.hex 2 n
  else if n < 0x10000 then "\\u" ++ Text.hex 4 n
  else "\\U" ++ Text.hex 8 n

namespace Text

/-- The quote that a text is put between. -/
def quoteMark (t : Text) : Char :=
  if t.contains (.char '\'') && !t.contains (.char '"') then '"' else '\''

def quoted (t : Text) : Text :=
  let q := t.quoteMark
  .char q :: t.flatMap (CodePoint.quotedAs q) ++ [.char q]

end Text

end Workbench
