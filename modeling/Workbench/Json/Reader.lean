import Workbench.Json.Value

/-! # Reading JSON

A reader takes one value off the front of a text and returns what is left,
which is shorter. The first fault ends the reading; its place is told by how
much of the text was left. `NaN` and the infinities are numbers. Containers
nest to a depth that is not known here, and an integer has a limited number of
digits.
-/

namespace Workbench.Json

inductive Fault where
  | byteOrderMark
  | value
  | memberName
  | colon
  | comma
  | openString
  | controlCharacter
  | escape
  | unicodeEscape
  | extraData
deriving DecidableEq

inductive Container where
  | array
  | object
deriving DecidableEq

/-- Why reading stopped: a fault with the length of the text left there, an
integer of too many digits, or a container nested too deep. -/
inductive Stop where
  | fault (f : Fault) (left : Nat)
  | longInteger (digits : Nat)
  | tooDeep (c : Container)
deriving DecidableEq

/-- What is left after something was read off the front of `s`. -/
abbrev Rest (s : Text) := {r : Text // r.length < s.length}

abbrev Reader (α : Type) := (s : Text) → Except Stop (α × Rest s)

def isSpace (c : CodePoint) : Bool := c == ' ' || c == '\t' || c == '\n' || c == '\r'

def skipSpace (s : Text) : Text := s.dropWhile isSpace

theorem length_dropWhile_le (p : CodePoint → Bool) (s : Text) :
    (s.dropWhile p).length ≤ s.length :=
  (List.dropWhile_sublist p).length_le

theorem length_skipSpace_le (s : Text) : (skipSpace s).length ≤ s.length :=
  length_dropWhile_le _ s

/-! ## Strings -/

def hex4? : Text → Option Nat
  | a :: b :: c :: d :: _ => do
    return ((← a.hexVal?) * 16 + (← b.hexVal?)) * 256 + ((← c.hexVal?) * 16 + (← d.hexVal?))
  | _ => none

def isHighSurrogate (n : Nat) : Bool := 0xD800 ≤ n && n < 0xDC00

def isLowSurrogate (n : Nat) : Bool := 0xDC00 ≤ n && n < 0xE000

/-- The code point of the escape whose digits begin `s`, and how many code
points it takes. A high surrogate joins a low one that follows it as an escape,
if a code point stands after that. -/
def unicodeEscape (s : Text) : Except Stop (CodePoint × Nat) :=
  match hex4? s, s.drop 4 with
  | none, _ => .error (.fault .unicodeEscape (s.length + 1))
  | some _, [] => .error (.fault .unicodeEscape (s.length + 1))
  | some n, .char '\\' :: .char 'u' :: more =>
    if isHighSurrogate n ∧ 4 < more.length then
      match hex4? more with
      | none => .error (.fault .unicodeEscape (more.length + 1))
      | some m =>
        if isLowSurrogate m then
          .ok (CodePoint.ofNat (0x10000 + (n - 0xD800) * 1024 + (m - 0xDC00)), 10)
        else .ok (CodePoint.ofNat n, 4)
    else .ok (CodePoint.ofNat n, 4)
  | some n, _ => .ok (CodePoint.ofNat n, 4)

def simpleEscape? : CodePoint → Option Char
  | .char '"' => some '"'
  | .char '\\' => some '\\'
  | .char '/' => some '/'
  | .char 'b' => some '\x08'
  | .char 'f' => some '\x0c'
  | .char 'n' => some '\n'
  | .char 'r' => some '\r'
  | .char 't' => some '\t'
  | _ => none

/-- Reads a string up to its closing quote. `opening` is how much was left at
the opening quote, `acc` what was read so far, last first. -/
def stringFrom (opening n : Nat) (s : Text) (h : s.length ≤ n) (acc : Text) :
    Except Stop (Text × {r : Text // r.length < n}) :=
  match s with
  | [] => .error (.fault .openString opening)
  | c :: rest =>
    if c = .char '"' then .ok (acc.reverse, ⟨rest, h⟩)
    else if c = .char '\\' then
      match rest with
      | [] => .error (.fault .openString opening)
      | d :: rest =>
        if d = .char 'u' then
          match unicodeEscape rest with
          | .error e => .error e
          | .ok (c, k) =>
            stringFrom opening n (rest.drop k)
              (by simp only [List.length_cons, List.length_drop] at h ⊢; omega) (c :: acc)
        else
          match simpleEscape? d with
          | none => .error (.fault .escape (rest.length + 2))
          | some c =>
            stringFrom opening n rest (by simp only [List.length_cons] at h; omega) (.char c :: acc)
    else if c.val < 0x20 then .error (.fault .controlCharacter (rest.length + 1))
    else stringFrom opening n rest (by simp only [List.length_cons] at h; omega) (c :: acc)
termination_by s.length
decreasing_by all_goals simp only [List.length_cons, List.length_drop]; omega

/-! ## Numbers -/

def fraction (s : Text) : Text × Text :=
  match s with
  | .char '.' :: rest =>
    match rest.takeWhile CodePoint.isDigit with
    | [] => ([], s)
    | digits => (digits, rest.dropWhile CodePoint.isDigit)
  | _ => ([], s)

def exponent (s : Text) : Option Int × Text :=
  let digits (sign : Int) (rest : Text) : Option Int × Text :=
    match rest.takeWhile CodePoint.isDigit with
    | [] => (none, s)
    | ds => (some (sign * Text.digitsVal ds), rest.dropWhile CodePoint.isDigit)
  match s with
  | .char e :: rest =>
    if e = 'e' ∨ e = 'E' then
      match rest with
      | .char '+' :: rest => digits 1 rest
      | .char '-' :: rest => digits (-1) rest
      | _ => digits 1 rest
    else (none, s)
  | _ => (none, s)

def integerLimit : Nat := 4300

/-- An integer without fraction and exponent, and a floating point number with either. -/
def numberOf (negative : Bool) (whole frac : Text) (exp : Option Int) : Except Stop Value :=
  match frac, exp with
  | [], none =>
    if integerLimit < whole.length then .error (.longInteger whole.length)
    else .ok (.int (if negative then -(Text.digitsVal whole : Int) else Text.digitsVal whole))
  | _, _ =>
    .ok (.float (Binary64.ofDecimal negative (Text.digitsVal (whole ++ frac))
      (exp.getD 0 - frac.length)))

def wholeDigits (s : Text) : Text × Text :=
  match s with
  | .char '0' :: rest => ("0", rest)
  | _ => (s.takeWhile CodePoint.isDigit, s.dropWhile CodePoint.isDigit)

def number : Reader Value := fun s =>
  let negative := s.head? = some (.char '-')
  let body := if negative then s.drop 1 else s
  let whole := wholeDigits body
  let frac := fraction whole.2
  let exp := exponent frac.2
  if whole.1.isEmpty then .error (.fault .value s.length)
  else match numberOf negative whole.1 frac.1 exp.1 with
    | .error e => .error e
    | .ok v =>
      if h : exp.2.length < s.length then .ok (v, ⟨exp.2, h⟩)
      else .error (.fault .value s.length)

/-! ## Values -/

def expect (word : Text) (s : Text) : Option (Rest s) :=
  let rest := s.drop word.length
  if h : word.isPrefixOf s ∧ rest.length < s.length then some ⟨rest, h.2⟩ else none

def literals : List (Text × Value) :=
  [("null", .null), ("true", .bool true), ("false", .bool false), ("NaN", .float .nan),
    ("Infinity", .float (.infinite false)), ("-Infinity", .float (.infinite true))]

def literal? (s : Text) : Option (Value × Rest s) :=
  literals.findSome? fun l => (expect l.1 s).map fun r => (l.2, r)

def elements (item : Reader Value) (n : Nat) (s : Text) (h : s.length ≤ n)
    (acc : List Value) : Except Stop (List Value × {r : Text // r.length < n}) :=
  match item s with
  | .error e => .error e
  | .ok (v, ⟨rest, hr⟩) =>
    match hs : skipSpace rest with
    | .char ']' :: after =>
      .ok ((v :: acc).reverse, ⟨after, by
        have := length_skipSpace_le rest
        rw [hs] at this
        simp at this
        omega⟩)
    | .char ',' :: after =>
      have : (skipSpace after).length < s.length := by
        have h₁ := length_skipSpace_le rest
        have h₂ := length_skipSpace_le after
        rw [hs] at h₁
        simp at h₁
        omega
      elements item n (skipSpace after) (by omega) (v :: acc)
    | other => .error (.fault .comma other.length)
termination_by s.length

def memberName : Reader Text := fun s =>
  match hs : s with
  | .char '"' :: rest =>
    match stringFrom s.length rest.length rest (Nat.le_refl _) [] with
    | .error e => .error e
    | .ok (name, ⟨r, hr⟩) =>
      match hc : skipSpace r with
      | .char ':' :: after =>
        .ok (name, ⟨skipSpace after, by
          have h₁ := length_skipSpace_le r
          have h₂ := length_skipSpace_le after
          rw [hc] at h₁
          simp at h₁ ⊢
          omega⟩)
      | other => .error (.fault .colon other.length)
  | other => .error (.fault .memberName other.length)

def members (item : Reader Value) (n : Nat) (s : Text) (h : s.length ≤ n)
    (acc : List (Text × Value)) :
    Except Stop (List (Text × Value) × {r : Text // r.length < n}) :=
  match memberName s with
  | .error e => .error e
  | .ok (name, ⟨start, hn⟩) =>
    match item start with
    | .error e => .error e
    | .ok (v, ⟨rest, hr⟩) =>
      match hs : skipSpace rest with
      | .char '}' :: after =>
        .ok (((name, v) :: acc).reverse, ⟨after, by
          have := length_skipSpace_le rest
          rw [hs] at this
          simp at this
          omega⟩)
      | .char ',' :: after =>
        have : (skipSpace after).length < s.length := by
          have h₁ := length_skipSpace_le rest
          have h₂ := length_skipSpace_le after
          rw [hs] at h₁
          simp at h₁
          omega
        members item n (skipSpace after) (by omega) ((name, v) :: acc)
      | other => .error (.fault .comma other.length)
termination_by s.length

def array (item : Reader Value) (s : Text) :
    Except Stop (Value × {r : Text // r.length < s.length + 1}) :=
  match hs : skipSpace s with
  | .char ']' :: after =>
    .ok (.arr [], ⟨after, by
      have := length_skipSpace_le s
      rw [hs] at this
      simp at this
      omega⟩)
  | _ =>
    (elements item (s.length + 1) (skipSpace s)
      (Nat.le_succ_of_le (length_skipSpace_le s)) []).map fun r => (.arr r.1, r.2)

def object (item : Reader Value) (s : Text) :
    Except Stop (Value × {r : Text // r.length < s.length + 1}) :=
  match hs : skipSpace s with
  | .char '}' :: after =>
    .ok (.obj [], ⟨after, by
      have := length_skipSpace_le s
      rw [hs] at this
      simp at this
      omega⟩)
  | _ =>
    (members item (s.length + 1) (skipSpace s)
      (Nat.le_succ_of_le (length_skipSpace_le s)) []).map fun r => (Value.object r.1, r.2)

/-- Reads a value whose containers hold what `inner` reads; without it no
container may open. -/
def valueWith (inner : Option (Reader Value)) : Reader Value := fun s =>
  match s with
  | .char '"' :: rest =>
    (stringFrom (rest.length + 1) (rest.length + 1) rest (Nat.le_succ _) []).map
      fun r => (.str r.1, r.2)
  | .char '[' :: rest =>
    match inner with
    | none => .error (.tooDeep .array)
    | some item => array item rest
  | .char '{' :: rest =>
    match inner with
    | none => .error (.tooDeep .object)
    | some item => object item rest
  | s =>
    match literal? s with
    | some r => .ok r
    | none => number s

/-- Reads a value whose containers nest at most `depth` deep. -/
def value : Nat → Reader Value
  | 0 => valueWith none
  | depth + 1 => valueWith (some (value depth))

/-- How deep containers may nest: what the calls in progress leave of the stack. -/
class Nesting where
  depthLimit : Nat

export Nesting (depthLimit)

/-- Why a text is not one JSON value. A fault stands at a position of the text,
counted in code points from zero. -/
inductive ReadError where
  | fault (f : Fault) (position : Nat)
  | longInteger (digits : Nat)
  | tooDeep (c : Container)
deriving DecidableEq

def ReadError.ofStop (s : Text) : Stop → ReadError
  | .fault f left => .fault f (s.length - left)
  | .longInteger digits => .longInteger digits
  | .tooDeep c => .tooDeep c

def read [Nesting] (s : Text) : Except ReadError Value :=
  if s.head? = some (.char '\uFEFF') then .error (.fault .byteOrderMark 0)
  else match value depthLimit (skipSpace s) with
    | .error stop => .error (ReadError.ofStop s stop)
    | .ok (v, rest) =>
      match skipSpace rest.1 with
      | [] => .ok v
      | extra => .error (.fault .extraData (s.length - extra.length))

/-! ## Messages -/

def Fault.message : Fault → Text
  | .byteOrderMark => "Unexpected UTF-8 BOM (decode using utf-8-sig)"
  | .value => "Expecting value"
  | .memberName => "Expecting property name enclosed in double quotes"
  | .colon => "Expecting ':' delimiter"
  | .comma => "Expecting ',' delimiter"
  | .openString => "Unterminated string starting at"
  | .controlCharacter => "Invalid control character at"
  | .escape => "Invalid \\escape"
  | .unicodeEscape => "Invalid \\uXXXX escape"
  | .extraData => "Extra data"

/-- The line of a position, from one, and its column in that line, from one. -/
def lineColumn (s : Text) (position : Nat) : Nat × Nat :=
  let before := s.take position
  (before.count (.char '\n') + 1, (before.reverse.takeWhile (· != .char '\n')).length + 1)

def longIntegerMessage (digits : Nat) : Text :=
  "Exceeds the limit (4300 digits) for integer string conversion: value has " ++
    Text.ofNat digits ++
    " digits; use sys.set_int_max_str_digits() to increase the limit"

def ReadError.message (s : Text) : ReadError → Text
  | .fault f position =>
    let p := lineColumn s position
    f.message ++ ": line " ++ Text.ofNat p.1 ++ " column " ++ Text.ofNat p.2 ++ " (char " ++
      Text.ofNat position ++ ")"
  | .longInteger digits => longIntegerMessage digits
  | .tooDeep .array =>
    "maximum recursion depth exceeded while decoding a JSON array from a unicode string"
  | .tooDeep .object =>
    "maximum recursion depth exceeded while decoding a JSON object from a unicode string"

end Workbench.Json
