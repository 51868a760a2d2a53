import Workbench.Field
import Workbench.Json.Reader
import Workbench.Text.Blank

/-! # Lax fields

A lenient way to read numbers and switches. Texts may have white space around a number,
zeros at its front, underscores between its digits and a fraction of zeros; switches may
be words.
-/

namespace Workbench.Field

open Json (Value)

/-- White space of Unicode, which may surround a number. -/
def isPadding (c : CodePoint) : Bool := c.isBlank && !(0x1C ≤ c.val && c.val ≤ 0x1F)

def signed : Text → Bool × Text
  | .char '-' :: r => (true, r)
  | .char '+' :: r => (false, r)
  | r => (false, r)

/-! ## Integers -/

def groupedDigits? (t : Text) : Option Text :=
  let groups := t.splitOn '_'
  if groups.all Text.isNumeral then some groups.flatten else none

/-- Zeros at the front are left out, with underscores among them, but for one that stands
alone or before a point. -/
def withoutZeros (t : Text) : Text :=
  match t with
  | .char '0' :: _ =>
    let zeros := t.takeWhile fun c => c == .char '0' || c == .char '_'
    match t.drop zeros.length with
    | [] | .char '.' :: _ => t.drop (zeros.length - 1)
    | rest => rest
  | _ => t

def withoutPlus : Text → Text
  | .char '+' :: .char c :: r => if c = '-' then [] else .char c :: r
  | r => r

/-- A fraction that is absent or holds zeros only, at least one of them. -/
def isZeroFraction : Option Text → Bool
  | none => true
  | some z => !z.isEmpty && z.all (· == '0')

def integerOfDigits (negative : Bool) (digits : Text) : Except Fault Int :=
  if digits.head? = some '0' ∧ digits.length ≠ 1 then .error .integerText
  else if Json.integerLimit < digits.length then .error .integerSize
  else .ok (if negative then -(Text.digitsVal digits : Int) else Text.digitsVal digits)

def integerOfText (t : Text) : Except Fault Int :=
  let s := signed (withoutZeros (withoutPlus (t.trim isPadding)))
  let parts := Text.cut '.' s.2
  match groupedDigits? parts.1 with
  | some digits =>
    if isZeroFraction parts.2 then integerOfDigits s.1 digits else .error .integerText
  | none => .error .integerText

def wordBound : Int := 0x8000000000000000

/-- The integer that a number of the format is, when it has no fraction and
lies within 64 bits. -/
def wholeFloat (x : Binary64) : Except Fault Int :=
  match x with
  | .finite .. =>
    match x.toInt? with
    | none => .error .fraction
    | some n => if -wordBound < n ∧ n < wordBound then .ok n else .error .integerSize
  | _ => .error .notFinite

def laxInteger : Value → Except Fault Int
  | .int n => .ok n
  | .bool b => .ok (if b then 1 else 0)
  | .float x => wholeFloat x
  | .str t => integerOfText t
  | _ => .error .notInteger

/-! ## Switches -/

def lowerAscii (t : Text) : Text :=
  t.map fun
    | .char c => .char c.toLower
    | s => s

def trueWords : List Text := ["1", "on", "t", "true", "y", "yes"]

def falseWords : List Text := ["0", "off", "f", "false", "n", "no"]

def switchOfInt (n : Int) : Except Fault Bool :=
  if n = 0 then .ok false else if n = 1 then .ok true else .error .switchWord

def laxSwitch : Value → Except Fault Bool
  | .bool b => .ok b
  | .int n =>
    if -wordBound ≤ n ∧ n < wordBound then switchOfInt n else .error .notSwitch
  | .float x => match wholeFloat x with
    | .ok n => switchOfInt n
    | .error _ => .error .notSwitch
  | .str t =>
    if lowerAscii t ∈ trueWords then .ok true
    else if lowerAscii t ∈ falseWords then .ok false
    else .error .switchWord
  | _ => .error .notSwitch

/-! ## Floating point numbers -/

def decimalText? (negative : Bool) (t : Text) : Option Binary64 :=
  let mantissa : Text := t.takeWhile fun c => c != .char 'e' && c != .char 'E'
  let parts := mantissa.cut '.'
  let whole := parts.1
  let frac := parts.2.getD []
  let exp? : Option Int := match t.drop mantissa.length with
    | [] => some 0
    | _ :: .char '-' :: ds => if Text.isNumeral ds then some (-(Text.digitsVal ds : Int)) else none
    | _ :: .char '+' :: ds => if Text.isNumeral ds then some (Text.digitsVal ds) else none
    | _ :: ds => if Text.isNumeral ds then some (Text.digitsVal ds) else none
  if Text.isNumeral (whole ++ frac) then
    exp?.map fun e =>
      Binary64.ofDecimal negative (Text.digitsVal (whole ++ frac)) (e - frac.length)
  else none

def plainFloat? (t : Text) : Option Binary64 :=
  let s := signed t
  let word := lowerAscii s.2
  if word = "inf" ∨ word = "infinity" then some (.infinite s.1)
  else if word = "nan" then some .nan
  else decimalText? s.1 s.2

/-- Single underscores inside a number are skipped. -/
def floatText? (t : Text) : Option Binary64 :=
  match plainFloat? (Text.trim isPadding t) with
  | some x => some x
  | none =>
    let groups := t.splitOn '_'
    if 1 < groups.length ∧ groups.all (!·.isEmpty) then
      plainFloat? (Text.trim isPadding groups.flatten)
    else none

def laxFloat : Value → Except Fault Binary64
  | .float x => .ok x
  | .int n => match Binary64.ofInt n with
    | .infinite _ => .error .notFloat
    | x => .ok x
  | .bool b => .ok (Binary64.ofInt (if b then 1 else 0))
  | .str t => match floatText? t with
    | some x => .ok x
    | none => .error .floatText
  | _ => .error .notFloat

abbrev Coercion.lax : Coercion := ⟨laxInteger, laxFloat, laxSwitch⟩

end Workbench.Field
