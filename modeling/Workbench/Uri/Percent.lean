import Workbench.Text.Utf8

/-! # Percent encoding

Octets that are not letters, digits or one of `_.-~/` are written as a percent
sign and two capital hexadecimal digits. In reading, a percent sign without two
digits stands for itself, and runs of ASCII are read as UTF-8 one by one.
-/

namespace Workbench.Percent

def isPlain (b : UInt8) : Bool :=
  (65 ≤ b && b ≤ 90) || (97 ≤ b && b ≤ 122) || (48 ≤ b && b ≤ 57) ||
    b == 95 || b == 46 || b == 45 || b == 126 || b == 47

def encodeOctet (b : UInt8) : Text :=
  if isPlain b then [CodePoint.ofNat b.toNat] else .char '%' :: Text.hexUpper 2 b.toNat

def encode (bytes : List UInt8) : Text := bytes.flatMap encodeOctet

def decodeOctets : Text → List UInt8
  | .char '%' :: a :: b :: rest =>
    match a.hexVal?, b.hexVal? with
    | some x, some y => (16 * x + y).toUInt8 :: decodeOctets rest
    | _, _ => 37 :: decodeOctets (a :: b :: rest)
  | c :: rest => c.val.toUInt8 :: decodeOctets rest
  | [] => []

def isAscii (c : CodePoint) : Bool := c.val < 128

/-- Longest runs of code points that are all ASCII or all not. -/
def runs (t : Text) : List Text :=
  t.foldr (fun c rs =>
    match rs with
    | (d :: run) :: rest =>
      if isAscii c == isAscii d then (c :: d :: run) :: rest else [c] :: (d :: run) :: rest
    | rs => [c] :: rs) []

def decodeRun (run : Text) : Text :=
  if run.all isAscii then Utf8.decode (decodeOctets run) else run

def decode (t : Text) : Text := (runs t).flatMap decodeRun

end Workbench.Percent
