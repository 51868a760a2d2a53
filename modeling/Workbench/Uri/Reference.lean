import Workbench.Text.Quoted
import Workbench.Uri.Host
import Workbench.Uri.Percent

/-! # URI references

A reference is cut into scheme, authority and path. Controls and spaces at its
front do not count, nor do tabs and line ends anywhere. An authority must have
balanced brackets around an address, and no character in it may turn into a
delimiter by compatibility.
-/

namespace Workbench.Uri

inductive Fault where
  | brackets
  | futureAddress
  | bracketedV4
  | notAddress (host : Text)
  | compatibility (authority : Text)
deriving DecidableEq

def Fault.message : Fault → Text
  | brackets => "Invalid IPv6 URL"
  | futureAddress => "IPvFuture address is invalid"
  | bracketedV4 => "An IPv4 address cannot be in brackets"
  | notAddress host => host.quoted ++ " does not appear to be an IPv4 or IPv6 address"
  | compatibility authority =>
    "netloc '" ++ authority ++ "' contains invalid characters under NFKC normalization"

structure Reference where
  scheme : Text
  authority : Text
  path : Text
deriving DecidableEq

def isSchemeChar (c : CodePoint) : Bool :=
  c.isAlpha || c.isDigit || c == '+' || c == '-' || c == '.'

def lowerScheme (t : Text) : Text :=
  t.map fun
    | .char c => .char c.toLower
    | s => s

def clean (t : Text) : Text :=
  (t.dropWhile (·.val ≤ 0x20)).filter fun c => c != '\t' && c != '\r' && c != '\n'

def splitScheme (t : Text) : Text × Text :=
  match t.cut ':' with
  | (scheme, some rest) =>
    if (scheme.head?.map (·.isAlpha)).getD false && scheme.all isSchemeChar then
      (lowerScheme scheme, rest)
    else ([], t)
  | _ => ([], t)

def isDelimiter (c : CodePoint) : Bool := c == '/' || c == '?' || c == '#'

def splitAuthority : Text → Text × Text
  | .char '/' :: .char '/' :: rest =>
    (rest.takeWhile (!isDelimiter ·), rest.dropWhile (!isDelimiter ·))
  | t => ([], t)

def bracketed (authority : Text) : Text :=
  (Text.cut ']' ((authority.cut '[').2.getD [])).1

def checkBracketed (host : Text) : Except Fault Unit :=
  if host.head? = some (.char 'v') then
    if Host.isFuture host then .ok () else .error .futureAddress
  else if Host.isV4 host then .error .bracketedV4
  else if Host.isV6 host then .ok ()
  else .error (.notAddress host)

def checkBrackets (authority : Text) : Except Fault Unit :=
  match authority.contains (.char '['), authority.contains (.char ']') with
  | true, true => checkBracketed (bracketed authority)
  | false, false => .ok ()
  | _, _ => .error .brackets

/-- The characters whose compatibility form holds a delimiter of references. -/
def disguisedDelimiters : List Nat :=
  [0x2047, 0x2048, 0x2049, 0x2100, 0x2101, 0x2105, 0x2106, 0x2A74, 0xFE13, 0xFE16, 0xFE55, 0xFE56,
    0xFE5F, 0xFE6B, 0xFF03, 0xFF0F, 0xFF1A, 0xFF1F, 0xFF20]

def checkCompatibility (authority : Text) : Except Fault Unit :=
  if authority.any (fun c => disguisedDelimiters.contains c.val) then
    .error (.compatibility authority)
  else .ok ()

def isPathEnd (c : CodePoint) : Bool := c == '?' || c == '#'

def Reference.ofText (t : Text) : Except Fault Reference := do
  let s := splitScheme (clean t)
  let a := splitAuthority s.2
  checkBrackets a.1
  checkCompatibility a.1
  return ⟨s.1, a.1, a.2.takeWhile (!isPathEnd ·)⟩

end Workbench.Uri
