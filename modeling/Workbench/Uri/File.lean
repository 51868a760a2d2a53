import Workbench.Path.Name
import Workbench.Uri.Reference

/-! # File URIs

The URI of a file and the path that a URI leads to. A path that holds a lone
surrogate has a URI only if each of them stands for an octet that is no UTF-8.
-/

namespace Workbench.Uri

variable [Path.WorkingDirectory]

/-- The octet that a surrogate of the range `0xDC80` to `0xDCFF` stands for. -/
def rawOctet? (s : Fin 0x800) : Option UInt8 :=
  if 0x480 ≤ s.val ∧ s.val ≤ 0x4FF then some (s.val - 0x400).toUInt8 else none

def octets? : Text → Option (List UInt8)
  | [] => some []
  | .char c :: rest => (octets? rest).map (Utf8.octets c.toNat ++ ·)
  | .surrogate s :: rest =>
    match rawOctet? s, octets? rest with
    | some b, some bs => some (b :: bs)
    | _, _ => none

/-- The first surrogate that stands for no octet, by its place, and how many
surrogates stand there side by side. -/
structure Unencodable where
  place : Nat
  first : Nat
  count : Nat
deriving DecidableEq

def isStray : CodePoint → Bool
  | .char _ => false
  | .surrogate s => (rawOctet? s).isNone

def isSurrogate : CodePoint → Bool
  | .char _ => false
  | .surrogate _ => true

def unencodable (t : Text) : Unencodable :=
  let before := t.takeWhile (!isStray ·)
  let rest := t.drop before.length
  ⟨before.length, (rest.head?.map (·.val)).getD 0, (rest.takeWhile isSurrogate).length⟩

def Unencodable.message (u : Unencodable) : Text :=
  if u.count = 1 then
    "'utf-8' codec can't encode character '\\u" ++ Text.hex 4 u.first ++ "' in position " ++
      Text.ofNat u.place ++ ": surrogates not allowed"
  else
    "'utf-8' codec can't encode characters in position " ++ Text.ofNat u.place ++ "-" ++
      Text.ofNat (u.place + u.count - 1) ++ ": surrogates not allowed"

def resolveFile (path root : Text) : PathName :=
  let p := PathName.ofText path
  (if p.isAbsolute || root.isEmpty then p else (PathName.ofText root).under p).absolute

def ofPath (p : PathName) : Except Unencodable Text :=
  match octets? p.text with
  | some bytes => .ok ("file://" ++ Percent.encode bytes)
  | none => .error (unencodable p.text)

def ofFile (path root : Text) : Except Unencodable Text := ofPath (resolveFile path root)

/-- The path of a file URI; any other text stands for itself. -/
def toPath (uri : Text) : Except Fault Text := do
  let r ← Reference.ofText uri
  return if r.scheme = "file" then Percent.decode r.path else uri

end Workbench.Uri
