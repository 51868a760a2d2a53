/-! # Text

A text is a list of code points. A code point is a character or a surrogate
that stands alone: escapes in JSON can name one, and no character can hold it.
Cutting, trimming and joining are stated on lists.
-/

namespace Workbench

/-- A Unicode code point: a character, or the surrogate `0xD800 + offset`. -/
inductive CodePoint where
  | char (c : Char)
  | surrogate (offset : Fin 0x800)
deriving DecidableEq, Inhabited

namespace CodePoint

def val : CodePoint → Nat
  | char c => c.toNat
  | surrogate s => 0xD800 + s.val

/-- The code point of a number; numbers past the last plane give U+FFFD. -/
def ofNat (n : Nat) : CodePoint :=
  if h : 0xD800 ≤ n ∧ n < 0xE000 then surrogate ⟨n - 0xD800, by omega⟩
  else if h : n.isValidChar then char (Char.ofNatAux n h)
  else char '\uFFFD'

instance : Coe Char CodePoint := ⟨char⟩

def isDigit : CodePoint → Bool
  | char c => c.isDigit
  | surrogate _ => false

def isAlpha : CodePoint → Bool
  | char c => c.isAlpha
  | surrogate _ => false

def digitVal (c : CodePoint) : Nat := c.val - 48

def hexVal? : CodePoint → Option Nat
  | char c =>
    if c.isDigit then some (c.toNat - 48)
    else if 'a' ≤ c ∧ c ≤ 'f' then some (c.toNat - 87)
    else if 'A' ≤ c ∧ c ≤ 'F' then some (c.toNat - 55)
    else none
  | surrogate _ => none

end CodePoint

abbrev Text := List CodePoint

instance : LawfulBEq Text := inferInstance

namespace Text

def ofString (s : String) : Text := s.toList.map .char

instance : Coe String Text := ⟨ofString⟩

/-- The text as a string; a lone surrogate becomes U+FFFD. -/
def toString (t : Text) : String :=
  String.ofList (t.map fun
    | .char c => c
    | .surrogate _ => '\uFFFD')

/-- No surrogate stands alone in the text. -/
def Scalar (t : Text) : Prop := ∀ s, CodePoint.surrogate s ∉ t

def le (a b : Text) : Bool :=
  match a, b with
  | [], _ => true
  | _ :: _, [] => false
  | x :: xs, y :: ys => x.val < y.val || (x.val == y.val && le xs ys)

def trimLeft (p : CodePoint → Bool) (t : Text) : Text := t.dropWhile p

def trimRight (p : CodePoint → Bool) (t : Text) : Text := (t.reverse.dropWhile p).reverse

def trim (p : CodePoint → Bool) (t : Text) : Text := trimRight p (trimLeft p t)

/-- The pieces between the occurrences of `sep`, which are one more than these. -/
def splitOn (sep : CodePoint) (t : Text) : List Text :=
  t.foldr (fun c pieces =>
    if c = sep then [] :: pieces
    else match pieces with
      | [] => [[c]]
      | piece :: rest => (c :: piece) :: rest) [[]]

def cut (sep : CodePoint) (t : Text) : Text × Option Text :=
  (t.takeWhile (· != sep), match t.dropWhile (· != sep) with
    | [] => none
    | _ :: rest => some rest)

def cutLast? (sep : CodePoint) (t : Text) : Option (Text × Text) :=
  match t.reverse.dropWhile (· != sep) with
  | [] => none
  | _ :: before => some (before.reverse, (t.reverse.takeWhile (· != sep)).reverse)

def join (sep : Text) (parts : List Text) : Text := sep.intercalate parts

def endsWith (t post : Text) : Bool := post.isSuffixOf t

def hasPart (part : Text) : Text → Bool
  | [] => part.isEmpty
  | c :: t => part.isPrefixOf (c :: t) || hasPart part t

def padRight (width : Nat) (t : Text) : Text := t ++ List.replicate (width - t.length) (.char ' ')

def padLeft (width : Nat) (fill : CodePoint) (t : Text) : Text :=
  List.replicate (width - t.length) fill ++ t

def ofNat (n : Nat) : Text := (Nat.toDigits 10 n).map .char

def ofInt : Int → Text
  | .ofNat n => ofNat n
  | .negSucc n => .char '-' :: ofNat (n + 1)

def digitsVal (t : Text) : Nat := t.foldl (fun n c => 10 * n + c.digitVal) 0

def isNumeral (t : Text) : Bool := !t.isEmpty && t.all (·.isDigit)

def hex (width n : Nat) : Text := padLeft width '0' ((Nat.toDigits 16 n).map .char)

def hexUpper (width n : Nat) : Text :=
  padLeft width '0' ((Nat.toDigits 16 n).map fun c => .char c.toUpper)

end Text

end Workbench
