import Workbench.Number.Binary64
import Workbench.Text.Basic

/-! # Decimal text of floating point numbers

The fewest digits that read back, and a fixed number of digits, both nearest to
the number. A layout then says where positional writing ends.
-/

namespace Workbench

/-- The digits `d₁d₂…` and the place of the point of `0.d₁d₂… * 10 ^ point`. -/
structure Decimal where
  digits : Nat
  point : Int
deriving DecidableEq

namespace Decimal

/-- The least `p` with `num / den < 10 ^ p`, sought upwards from `p`. -/
def magnitudeUp (num den : Nat) (p : Nat) : Nat → Nat
  | 0 => p
  | n + 1 => if num < den * Nat.pow 10 p then p else magnitudeUp num den (p + 1) n

/-- How far the point can move to the left and keep `num / den` below it. -/
def magnitudeDown (num den : Nat) (p : Nat) : Nat → Nat
  | 0 => p
  | n + 1 => if num * Nat.pow 10 (p + 1) < den then magnitudeDown num den (p + 1) n else p

/-- The `p` with `10 ^ (p - 1) ≤ num / den < 10 ^ p`, for numbers of the format. -/
def pointOf (num den : Nat) : Int :=
  if den ≤ num then magnitudeUp num den 0 400 else -(magnitudeDown num den 0 400 : Int)

def scale (num den : Nat) (k : Int) : Nat × Nat :=
  if 0 ≤ k then (num, den * Nat.pow 10 k.toNat) else (num * Nat.pow 10 (-k).toNat, den)

/-- The nearest integer to `num / den`, a tie going to the even one. -/
def nearest (num den : Nat) : Nat :=
  let q := num / den
  let r := num % den
  if den < 2 * r ∨ (2 * r = den ∧ q % 2 = 1) then q + 1 else q

def rounded (num den n : Nat) : Decimal :=
  let p := pointOf num den
  let s := scale num den (p - n)
  let d := nearest s.1 s.2
  if d = Nat.pow 10 n then ⟨Nat.pow 10 (n - 1), p + 1⟩ else ⟨d, p⟩

end Decimal

namespace Binary64

/-- `d * 10 ^ k` rounds to the finite number with this mantissa and exponent:
it lies between the midpoints to its neighbours, which belong to an even mantissa. -/
def readsBack (m e : Nat) (d : Nat) (k : Int) : Bool :=
  let s := if 0 ≤ k then (d * Nat.pow 10 k.toNat, 1) else (d, Nat.pow 10 (-k).toNat)
  let x := s.1 * unit * 4
  let y := s.2 * Nat.pow 2 e
  let lo := if m = Nat.pow 2 52 ∧ e ≠ 0 then 4 * m - 1 else 4 * m - 2
  let hi := 4 * m + 2
  if m % 2 = 0 then lo * y ≤ x ∧ x ≤ hi * y else lo * y < x ∧ x < hi * y

/-- The first count of digits, from `n` on, for which the nearest decimal reads back. -/
def shortestFrom (m e num den : Nat) (n : Nat) : Nat → Decimal
  | 0 => Decimal.rounded num den 17
  | fuel + 1 =>
    let d := Decimal.rounded num den n
    if readsBack m e d.digits (d.point - n) then d else shortestFrom m e num den (n + 1) fuel

/-- The fewest digits that read back as the number, nearest to it. -/
def shortest (b : Binary64) : Decimal :=
  match b with
  | finite _ m e =>
    if m = 0 then ⟨0, 1⟩
    else shortestFrom m e b.magnitude.1 b.magnitude.2 1 17
  | _ => ⟨0, 1⟩

end Binary64

namespace Decimal

def figures (d : Decimal) : Text :=
  match (Text.ofNat d.digits).trimRight (· == '0') with
  | [] => "0"
  | t => t

def exponentText (e : Int) : Text :=
  (if e < 0 then .char '-' else .char '+') :: Text.padLeft 2 '0' (Text.ofNat e.natAbs)

def scientific (d : Decimal) : Text :=
  match d.figures with
  | [] => []
  | [c] => c :: .char 'e' :: exponentText (d.point - 1)
  | c :: cs => c :: .char '.' :: cs ++ .char 'e' :: exponentText (d.point - 1)

def positional (d : Decimal) : Text :=
  let f := d.figures
  let zeros (n : Nat) : Text := List.replicate n (.char '0')
  if d.point ≤ 0 then "0." ++ zeros (-d.point).toNat ++ f
  else if f.length ≤ d.point.toNat then
    f ++ zeros (d.point.toNat - f.length)
  else f.take d.point.toNat ++ .char '.' :: f.drop d.point.toNat

end Decimal

namespace Binary64

/-- The text of the number with the fewest digits: positional from `0.0001` to
below `10 ^ 16`, where a fraction is always written, and scientific otherwise. -/
def text : Binary64 → Text
  | nan => "nan"
  | infinite s => if s then "-inf" else "inf"
  | b@(finite s m _) =>
    let sign : Text := if s then "-" else ""
    let d := b.shortest
    if m = 0 then sign ++ "0.0"
    else if d.point ≤ -4 ∨ 16 < d.point then sign ++ d.scientific
    else
      let p := d.positional
      sign ++ (if p.contains (.char '.') then p else p ++ ".0")

/-- Six significant digits without zeros at the end: positional from `0.0001`
to below a million. -/
def general : Binary64 → Text
  | nan => "nan"
  | infinite s => if s then "-inf" else "inf"
  | b@(finite s m _) =>
    let sign : Text := if s then "-" else ""
    let d := Decimal.rounded b.magnitude.1 b.magnitude.2 6
    if m = 0 then sign ++ "0"
    else if d.point ≤ -4 ∨ 6 < d.point then sign ++ d.scientific
    else sign ++ d.positional

end Binary64

end Workbench
