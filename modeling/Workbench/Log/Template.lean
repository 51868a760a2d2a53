import Workbench.Json.Display
import Workbench.Number.Layout
import Workbench.Record

/-! # Message templates

A template holds directives that begin with a percent sign and are filled in
with arguments in order, or with members of an object by name: flags, width,
precision and the kind of conversion. Directives are filled in one by one, and
the first that cannot be ends the filling.
-/

namespace Workbench.Log.Template

open Json (Value)

inductive Fault where
  | incomplete
  | incompleteName
  | unsupported (c : CodePoint) (position : Nat)
  | missingArgument
  | spareArgument
  | needsObject
  | noMember (name : Text)
  | starNeedsInteger
  | notNumber (conversion : CodePoint) (v : Value)
  | notInteger (conversion : CodePoint) (v : Value)
  | notReal (v : Value)
  | notCharacter
  | noSuchCharacter
  | notANumber
  | infinity
  | tooLarge
deriving Inhabited

inductive FaultKind where
  | type
  | value
  | key
  | overflow
deriving DecidableEq

namespace Fault

def kind : Fault → FaultKind
  | incomplete | incompleteName | unsupported .. | notANumber => .value
  | noMember _ => .key
  | noSuchCharacter | infinity | tooLarge => .overflow
  | _ => .type

def message : Fault → Text
  | incomplete => "incomplete format"
  | incompleteName => "incomplete format key"
  | unsupported c position =>
    let shown : Text := if 31 < c.val ∧ c.val < 128 then [c] else "?"
    "unsupported format character '" ++ shown ++ "' (0x" ++ Text.hex 1 c.val ++ ") at index " ++
      Text.ofNat position
  | missingArgument => "not enough arguments for format string"
  | spareArgument => "not all arguments converted during string formatting"
  | needsObject => "format requires a mapping"
  | noMember name => Text.quoted name
  | starNeedsInteger => "* wants int"
  | notNumber c v =>
    "%" ++ [c] ++ " format: a real number is required, not " ++ typeWord v
  | notInteger c v => "%" ++ [c] ++ " format: an integer is required, not " ++ typeWord v
  | notReal v => "must be real number, not " ++ typeWord v
  | notCharacter => "%c requires int or char"
  | noSuchCharacter => "%c arg not in range(0x110000)"
  | notANumber => "cannot convert float NaN to integer"
  | infinity => "cannot convert float infinity to integer"
  | tooLarge => "int too large to convert to float"

end Fault

/-! ## Directives -/

/-- A width or precision: left out, a number, or taken from the arguments. -/
inductive Amount where
  | none
  | some (n : Nat)
  | star
deriving DecidableEq

structure Flags where
  left : Bool := false
  plus : Bool := false
  space : Bool := false
  alternate : Bool := false
  zero : Bool := false
deriving DecidableEq

def Flags.ofText (t : Text) : Flags :=
  ⟨t.contains (.char '-'), t.contains (.char '+'), t.contains (.char ' '),
    t.contains (.char '#'), t.contains (.char '0')⟩

structure Directive where
  /-- The member that is meant; an unclosed name is a fault. -/
  name : Option (Option Text) := none
  flags : Flags := {}
  width : Amount := .none
  precision : Amount := .none
  /-- The kind of conversion, unless the template ends before it. -/
  conversion : Option CodePoint := none
  /-- The place of the conversion in the template. -/
  position : Nat := 0

inductive Piece where
  | literal (t : Text)
  | directive (d : Directive)

def isFlag (c : CodePoint) : Bool := c == '-' || c == '+' || c == ' ' || c == '#' || c == '0'

def closeName (depth : Nat) : Text → Option (Text × Text)
  | [] => none
  | c :: rest =>
    if c = ')' then
      if depth = 0 then some ([], rest)
      else (closeName (depth - 1) rest).map fun r => (c :: r.1, r.2)
    else
      (closeName (if c = '(' then depth + 1 else depth) rest).map fun r => (c :: r.1, r.2)

def readName : Text → Option (Option Text) × Text
  | .char '(' :: rest =>
    match closeName 0 rest with
    | some r => (some (some r.1), r.2)
    | none => (some none, [])
  | t => (none, t)

def readAmount : Text → Amount × Text
  | .char '*' :: rest => (.star, rest)
  | t =>
    let digits : Text := t.takeWhile (·.isDigit)
    (if digits.isEmpty then .none else .some digits.digitsVal, t.drop digits.length)

def readPrecision : Text → Amount × Text
  | .char '.' :: rest =>
    match readAmount rest with
    | (.none, r) => (.some 0, r)
    | r => r
  | t => (.none, t)

def skipSize : Text → Text
  | .char 'h' :: rest => rest
  | .char 'l' :: rest => rest
  | .char 'L' :: rest => rest
  | t => t

/-- Reads a directive after its percent sign in a template of `total` code points. -/
def readDirective (total : Nat) (t : Text) : Directive × Text :=
  let (name, t) := readName t
  let flags := t.takeWhile isFlag
  let (width, t) := readAmount (t.drop flags.length)
  let (precision, t) := readPrecision t
  match skipSize t with
  | [] => (⟨name, .ofText flags, width, precision, none, total⟩, [])
  | c :: rest =>
    (⟨name, .ofText flags, width, precision, some c, total - rest.length - 1⟩, rest)

/-- The pieces of a template, where two percent signs stand for one; the bound
on their number is an argument. -/
def readPieces (total : Nat) : Nat → Text → List Piece
  | 0, _ => []
  | n + 1, t =>
    let plain := t.takeWhile fun c => c != .char '%'
    match t.drop plain.length with
    | [] => [.literal plain]
    | _ :: .char '%' :: rest => .literal (plain ++ "%") :: readPieces total n rest
    | _ :: rest =>
      let r := readDirective total rest
      .literal plain :: .directive r.1 :: readPieces total n r.2

def pieces (t : Text) : List Piece := readPieces t.length (t.length + 1) t

/-! ## Arguments -/

structure Arguments where
  queue : List Value
  object : Option Field.Members := none

namespace Arguments

/-- A single object that is not empty is referred to by name. -/
def ofList : List Value → Arguments
  | [.obj (m :: ms)] => ⟨[.obj (m :: ms)], some (m :: ms)⟩
  | vs => ⟨vs, none⟩

def next (a : Arguments) : Except Fault (Value × Arguments) :=
  match a.queue with
  | [] => .error .missingArgument
  | v :: rest => .ok (v, { a with queue := rest })

def select (a : Arguments) (name : Option (Option Text)) : Except Fault Arguments :=
  match name, a.object with
  | none, _ => .ok a
  | some _, none => .error .needsObject
  | some none, some _ => .error .incompleteName
  | some (some name), some ms =>
    match Field.lookup ms name with
    | some v => .ok { a with queue := [v] }
    | none => .error (.noMember name)

def star (a : Arguments) : Except Fault (Int × Arguments) := do
  match ← a.next with
  | (.int n, a) => return (n, a)
  | (.bool b, a) => return (if b then 1 else 0, a)
  | _ => throw .starNeedsInteger

end Arguments

/-! ## Conversions -/

/-- A converted value before it is filled up: a number has its sign and its
base apart. -/
structure Converted where
  isNumber : Bool := false
  negative : Bool := false
  base : Text := []
  body : Text

def filled (flags : Flags) (width : Nat) (c : Converted) : Text :=
  let sign : Text :=
    if !c.isNumber then []
    else if c.negative then "-" else if flags.plus then "+" else if flags.space then " " else []
  let front := sign ++ c.base
  let missing := width - (front.length + c.body.length)
  let spaces : Text := List.replicate missing (.char ' ')
  if c.isNumber && flags.zero then
    if flags.left then front ++ c.body ++ spaces
    else front ++ List.replicate missing (.char '0') ++ c.body
  else if flags.left then front ++ c.body ++ spaces
  else spaces ++ front ++ c.body

def asciiOnly (t : Text) : Text :=
  t.flatMap fun c =>
    if c.val < 0x80 then [c]
    else if c.val < 0x100 then "\\x" ++ Text.hex 2 c.val
    else if c.val < 0x10000 then "\\u" ++ Text.hex 4 c.val
    else "\\U" ++ Text.hex 8 c.val

def word (precision : Option Nat) (t : Text) : Converted :=
  { body := match precision with
      | some n => t.take n
      | none => t }

def wholePart (c : CodePoint) : Value → Except Fault Int
  | .int n => .ok n
  | .bool b => .ok (if b then 1 else 0)
  | .float .nan => .error .notANumber
  | .float (.infinite _) => .error .infinity
  | .float x =>
    let n : Int := x.magnitude.1 / x.magnitude.2
    .ok (if x.isNegative then -n else n)
  | v => .error (.notNumber c v)

def exactInteger (c : CodePoint) : Value → Except Fault Int
  | .int n => .ok n
  | .bool b => .ok (if b then 1 else 0)
  | v => .error (.notInteger c v)

def integer (radix : Nat) (mark : Text) (capitals : Bool) (precision : Option Nat) (n : Int) :
    Converted :=
  let digits : Text := (Nat.toDigits radix n.natAbs).map fun c =>
    .char (if capitals then c.toUpper else c)
  { isNumber := true, negative := n < 0, base := mark
    body := Text.padLeft (precision.getD 0) '0' digits }

def real : Value → Except Fault Binary64
  | .float x => .ok x
  | .int n => match Binary64.ofInt n with
    | .infinite _ => .error .tooLarge
    | x => .ok x
  | .bool b => .ok (Binary64.ofInt (if b then 1 else 0))
  | v => .error (.notReal v)

def upperWord (t : Text) : Text :=
  t.map fun
    | .char c => .char c.toUpper
    | s => s

def realText (capitals : Bool) (write : Nat → Nat → Text) (x : Binary64) : Converted :=
  let body : Text := match x with
    | .nan => "nan"
    | .infinite _ => "inf"
    | x => write x.magnitude.1 x.magnitude.2
  { isNumber := true, negative := x.isNegative
    body := if capitals then upperWord body else body }

def character : Value → Except Fault Converted
  | .int n =>
    if 0 ≤ n ∧ n < 0x110000 then .ok { body := [.ofNat n.toNat] } else .error .noSuchCharacter
  | .bool b => .ok { body := [.ofNat (if b then 1 else 0)] }
  | .str [c] => .ok { body := [c] }
  | _ => .error .notCharacter

def convert (c : CodePoint) (flags : Flags) (precision : Option Nat) (position : Nat) (v : Value) :
    Except Fault Converted :=
  let mark (t : Text) : Text := if flags.alternate then t else []
  let places := precision.getD 6
  match c with
  | .char 's' => .ok (word precision v.shown)
  | .char 'r' => .ok (word precision v.display)
  | .char 'a' => .ok (word precision (asciiOnly v.display))
  | .char 'c' => character v
  | .char 'd' => (wholePart c v).map (integer 10 [] false precision)
  | .char 'i' => (wholePart c v).map (integer 10 [] false precision)
  | .char 'u' => (wholePart c v).map (integer 10 [] false precision)
  | .char 'o' => (exactInteger c v).map (integer 8 (mark "0o") false precision)
  | .char 'x' => (exactInteger c v).map (integer 16 (mark "0x") false precision)
  | .char 'X' => (exactInteger c v).map (integer 16 (mark "0X") true precision)
  | .char 'e' => (real v).map (realText false (Decimal.exponential places flags.alternate))
  | .char 'E' => (real v).map (realText true (Decimal.exponential places flags.alternate))
  | .char 'f' => (real v).map (realText false (Decimal.fixed places flags.alternate))
  | .char 'F' => (real v).map (realText true (Decimal.fixed places flags.alternate))
  | .char 'g' => (real v).map (realText false (Decimal.significant places flags.alternate))
  | .char 'G' => (real v).map (realText true (Decimal.significant places flags.alternate))
  | c => .error (.unsupported c position)

/-! ## Filling in -/

def takeWidth (d : Directive) (a : Arguments) : Except Fault (Nat × Bool × Arguments) :=
  match d.width with
  | .none => .ok (0, d.flags.left, a)
  | .some n => .ok (n, d.flags.left, a)
  | .star => a.star.map fun r => (r.1.natAbs, d.flags.left || r.1 < 0, r.2)

def takePrecision (d : Directive) (a : Arguments) : Except Fault (Option Nat × Arguments) :=
  match d.precision with
  | .none => .ok (none, a)
  | .some n => .ok (some n, a)
  | .star => a.star.map fun r => (some r.1.toNat, r.2)

def fillDirective (d : Directive) (a : Arguments) : Except Fault (Text × Arguments) := do
  let a ← a.select d.name
  let (width, left, a) ← takeWidth d a
  let (precision, a) ← takePrecision d a
  match d.conversion with
  | none => throw .incomplete
  | some c =>
    let (v, a) ← a.next
    let converted ← convert c d.flags precision d.position v
    return (filled { d.flags with left } width converted, a)

def fillPieces (a : Arguments) : List Piece → Except Fault (Text × Arguments)
  | [] => .ok ([], a)
  | .literal t :: rest => (fillPieces a rest).map fun r => (t ++ r.1, r.2)
  | .directive d :: rest => do
    let (t, a) ← fillDirective d a
    let (more, a) ← fillPieces a rest
    return (t ++ more, a)

/-- The template with its directives filled in. Arguments that are left over
are a fault, unless names refer to an object. -/
def fill (template : Text) (args : List Value) : Except Fault Text := do
  let (t, a) ← fillPieces (.ofList args) (pieces template)
  if a.queue.isEmpty || a.object.isSome then return t else throw .spareArgument

end Workbench.Log.Template
