import Workbench.Path.Normal
import Workbench.Text.Quoted
import Workbench.Uri.Percent
import Workbench.Uri.Reference

/-! # Web addresses

Where a resource is: scheme and authority, path, query, fragment. Characters
that have no place in a part are escaped when an address is read, and `.` and
`..` in the path are resolved. A reference is read below a base address or
against the address it was found at.
-/

namespace Workbench.Web

structure Address where
  scheme : Text
  authority : Text
  path : Text
  query : Option Text := none
  fragment : Option Text := none
deriving DecidableEq, Inhabited

structure InvalidAddress where
  character : CodePoint
  position : Nat
deriving DecidableEq

def InvalidAddress.message (i : InvalidAddress) : Text :=
  "Invalid non-printable ASCII character in URL, " ++ Text.quoted [i.character] ++
    " at position " ++ Text.ofNat i.position ++ "."

namespace Address

def secure : Text := "https"

def marked (mark : Char) : Option Text → Text
  | none => []
  | some t => .char mark :: t

def text (a : Address) : Text :=
  a.scheme ++ "://" ++ a.authority ++ a.path ++ marked '?' a.query ++ marked '#' a.fragment

def plainPath (a : Address) : Text :=
  if a.path.isEmpty then [Path.slash] else Percent.decode a.path

/-! ## Escapes -/

def isVisible (c : CodePoint) : Bool := 0x20 < c.val && c.val < 0x7F

def inFragment (c : CodePoint) : Bool :=
  isVisible c && c != '"' && c != '<' && c != '>' && c != '`'

def inQuery (c : CodePoint) : Bool :=
  isVisible c && c != '"' && c != '#' && c != '<' && c != '>'

def inPath (c : CodePoint) : Bool :=
  inQuery c && c != '?' && c != '`' && c != .char '\x7b' && c != .char '\x7d'

def escapeOctet (b : UInt8) : Text := .char '%' :: Text.hexUpper 2 b.toNat

def escape (allowed : CodePoint → Bool) (t : Text) : Text :=
  t.flatMap fun c => if allowed c then [c] else (Utf8.encode [c]).flatMap escapeOctet

/-! ## Paths -/

/-- Takes the next segment of a path; `..` takes the last one away. -/
def segmentStep (segments : List Text) (s : Text) : List Text :=
  if s = Path.dot then segments
  else if s = Path.dotDot then (if segments = [[]] then segments else segments.dropLast)
  else segments ++ [s]

def normalPath (path : Text) : Text :=
  Text.join [Path.slash] ((Path.pieces path).foldl segmentStep [])

/-- A `.` or `..` at the end names a directory. -/
def endsInDots (path : Text) : Bool :=
  match (Path.pieces path).getLast? with
  | some s => s == Path.dot || s == Path.dotDot
  | none => false

/-- The path of a reference found at a path: in the same directory, unless it
begins with a slash. -/
def relativePath (base path : Text) : Text :=
  let dir : Text := match Text.cutLast? Path.slash base with
    | some (before, _) => before ++ [Path.slash]
    | none => [Path.slash]
  let full := if Path.isAbsolute path then path else dir ++ path
  normalPath full ++ (if endsInDots full then [Path.slash] else [])

/-! ## References -/

def split (t : Text) : Address :=
  let s := Uri.splitScheme t
  let a := Uri.splitAuthority s.2
  let f := a.2.cut '#'
  let q := f.1.cut '?'
  { scheme := s.1
    authority := Uri.lowerScheme a.1
    path := escape inPath q.1
    query := q.2.map (escape inQuery)
    fragment := f.2.map (escape inFragment) }

def isControl (c : CodePoint) : Bool := c.val < 0x20 || c.val == 0x7F

def read (t : Text) : Except InvalidAddress Address :=
  match t.find? isControl with
  | some c => .error ⟨c, (t.takeWhile (!isControl ·)).length⟩
  | none => .ok (split t)

def withoutLeadingSlashes (path : Text) : Text := path.dropWhile (· == Path.slash)

def below (base : Address) (t : Text) : Except InvalidAddress Address := do
  let r ← read t
  let path := base.path ++ [Path.slash] ++ withoutLeadingSlashes r.path
  return { base with path := normalPath path, query := r.query, fragment := none }

def resolve (found : Address) (t : Text) : Except InvalidAddress Address := do
  let r ← read t
  if !r.scheme.isEmpty then
    let authority := if r.authority.isEmpty then found.authority else r.authority
    return { r with authority, path := normalPath r.path }
  else if !r.authority.isEmpty then
    return { r with scheme := found.scheme, path := normalPath r.path }
  else if r.path.isEmpty then
    return { found with query := r.query <|> found.query, fragment := r.fragment }
  else
    let path := relativePath found.path r.path
    return { found with path, query := r.query, fragment := r.fragment }

end Address

end Workbench.Web
