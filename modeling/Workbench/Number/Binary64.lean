/-! # Binary floating point

The 64-bit binary format as exact data. A finite number is a sign, a mantissa
and a power of two; a quotient of naturals is rounded to the nearest number of
the format, and of two nearest to the one with the even mantissa.
-/

namespace Workbench

/-- `finite s m e` is `m * 2 ^ (e - 1074)` with the sign `s`. Either `e = 0` and
`m < 2 ^ 53`, or `2 ^ 52 ≤ m < 2 ^ 53` and `e ≤ 2045`. -/
inductive Binary64 where
  | finite (negative : Bool) (mantissa exponent : Nat)
  | infinite (negative : Bool)
  | nan
deriving DecidableEq, Inhabited

namespace Binary64

/-- The power of two that `exponent` counts from, as a divisor. -/
def unit : Nat := Nat.pow 2 1074

/-- The number of the format nearest to `num / den`. -/
def roundRatio (negative : Bool) (num den : Nat) : Binary64 :=
  let n := num * unit
  let e := (n / den).log2 - 52
  let scaled := den * Nat.pow 2 e
  let q := n / scaled
  let r := n % scaled
  let m := if scaled < 2 * r ∨ (2 * r = scaled ∧ q % 2 = 1) then q + 1 else q
  let (m, e) := if m = Nat.pow 2 53 then (Nat.pow 2 52, e + 1) else (m, e)
  if 2045 < e then infinite negative else finite negative m e

/-- The number nearest to `digits * 10 ^ exponent`. Beyond four hundred places
before or after the point the answer no longer depends on the digits. -/
def ofDecimal (negative : Bool) (digits : Nat) (exponent : Int) : Binary64 :=
  let places : Int := (Nat.toDigits 10 digits).length
  if digits = 0 ∨ places + exponent < -400 then finite negative 0 0
  else if 400 < places + exponent then infinite negative
  else if 0 ≤ exponent then roundRatio negative (digits * Nat.pow 10 exponent.toNat) 1
  else roundRatio negative digits (Nat.pow 10 (-exponent).toNat)

def ofInt (n : Int) : Binary64 := ofDecimal (n < 0) n.natAbs 0

/-- The 64 bits of the number; `none` stands for what is not a number. -/
def bits? : Binary64 → Option Nat
  | finite s m e =>
    some ((if s then Nat.pow 2 63 else 0) +
      (if m < Nat.pow 2 52 then m else (e + 1) * Nat.pow 2 52 + (m - Nat.pow 2 52)))
  | infinite s => some ((if s then Nat.pow 2 63 else 0) + 2047 * Nat.pow 2 52)
  | nan => none

def toInt? : Binary64 → Option Int
  | finite s m e =>
    let signed (n : Nat) : Int := if s then -(n : Int) else n
    if 1074 ≤ e then some (signed (m * Nat.pow 2 (e - 1074)))
    else if m % Nat.pow 2 (1074 - e) = 0 then some (signed (m / Nat.pow 2 (1074 - e)))
    else none
  | _ => none

def magnitude : Binary64 → Nat × Nat
  | finite _ m e => if 1074 ≤ e then (m * Nat.pow 2 (e - 1074), 1) else (m, Nat.pow 2 (1074 - e))
  | _ => (0, 1)

def isNegative : Binary64 → Bool
  | finite s _ _ => s
  | infinite s => s
  | nan => false

def isPositive : Binary64 → Bool
  | finite s m _ => !s && m != 0
  | infinite s => !s
  | nan => false

def floor (b : Binary64) : Int :=
  let q := b.magnitude
  if b.isNegative then -((q.1 + q.2 - 1) / q.2 : Nat) else (q.1 / q.2 : Nat)

def isZero : Binary64 → Bool
  | finite _ m _ => m == 0
  | _ => false

end Binary64

end Workbench
