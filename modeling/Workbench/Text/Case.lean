import Workbench.Text.Basic
import Workbench.Text.Case.Table

/-! # Lower case

Every capital becomes its small letter. The dotted capital I becomes two code
points, and a capital sigma has a form of its own at the end of a word.
-/

namespace Workbench

namespace CodePoint

def inRanges (ranges : List (Nat × Nat)) (c : CodePoint) : Bool :=
  ranges.any fun r => r.1 ≤ c.val && c.val ≤ r.2

def isCased (c : CodePoint) : Bool := c.inRanges Text.Case.casedRanges

def isCaseIgnorable (c : CodePoint) : Bool := c.inRanges Text.Case.ignorableRanges

def lower (c : CodePoint) : Text :=
  let n := c.val
  if n < 128 then (if 65 ≤ n ∧ n ≤ 90 then [ofNat (n + 32)] else [c])
  else if n = 0x130 then [.char 'i', ofNat 0x307]
  else if n = 0x3A3 then [ofNat 0x3C3]
  else match Text.Case.runs.find? fun r =>
      r.first ≤ n && n ≤ r.last && (n - r.first) % r.stride == 0 with
    | some r => [ofNat (r.lower + (n - r.first))]
    | none => [c]

end CodePoint

namespace Text

def capitalSigma : CodePoint := CodePoint.ofNat 0x3A3

/-- The first code point that is not ignorable has a case. -/
def meetsCased (t : Text) : Bool :=
  match t.dropWhile (·.isCaseIgnorable) with
  | [] => false
  | c :: _ => c.isCased

/-- Lower case of the text after `before`, which is kept last first. -/
def lowerFrom (before : Text) : Text → Text
  | [] => []
  | c :: rest =>
    (if c = capitalSigma ∧ meetsCased before ∧ !meetsCased rest then [CodePoint.ofNat 0x3C2]
      else c.lower) ++ lowerFrom (c :: before) rest

def lower (t : Text) : Text := lowerFrom [] t

end Text

end Workbench
