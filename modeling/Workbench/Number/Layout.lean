import Workbench.Number.Shortest

/-! # Layouts of decimals

Numbers with a given count of places: after the point, after the first digit
with a power of ten, or of significant digits in whichever of the two layouts
is fit. A point that nothing follows is left out, unless it is asked for.
-/

namespace Workbench.Decimal

/-- `n` digits nearest to `num / den`; zero has digits as well. -/
def digitsText (num den n : Nat) : Text × Int :=
  if num = 0 then (List.replicate n (.char '0'), 1)
  else
    let d := rounded num den n
    (Text.padLeft n '0' (Text.ofNat d.digits), d.point)

def pointed (keepPoint : Bool) (whole frac : Text) : Text :=
  if frac.isEmpty && !keepPoint then whole else whole ++ "." ++ frac

def exponential (places : Nat) (keepPoint : Bool) (num den : Nat) : Text :=
  let d := digitsText num den (places + 1)
  pointed keepPoint (d.1.take 1) (d.1.drop 1) ++ "e" ++ exponentText (d.2 - 1)

def fixed (places : Nat) (keepPoint : Bool) (num den : Nat) : Text :=
  let digits := Text.padLeft (places + 1) '0' (Text.ofNat (nearest (num * Nat.pow 10 places) den))
  let whole := digits.take (digits.length - places)
  pointed keepPoint whole (digits.drop whole.length)

def dropZeros (t : Text) : Text := Text.trimRight (· == '0') t

/-- `n` significant digits, at least one. Zeros at the end of the fraction are
left out, unless the point is asked for. -/
def significant (n : Nat) (keepPoint : Bool) (num den : Nat) : Text :=
  let n := max n 1
  let d := digitsText num den n
  let kept (t : Text) : Text := if keepPoint then t else dropZeros t
  if d.2 ≤ -4 ∨ n < d.2 then
    pointed keepPoint (d.1.take 1) (kept (d.1.drop 1)) ++ "e" ++ exponentText (d.2 - 1)
  else if d.2 ≤ 0 then
    pointed keepPoint "0" (kept (List.replicate (-d.2).toNat (.char '0') ++ d.1))
  else pointed keepPoint (d.1.take d.2.toNat) (kept (d.1.drop d.2.toNat))

end Workbench.Decimal
