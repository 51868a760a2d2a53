import Workbench.Path.Normal
import Workbench.Text.Utf8

/-! # Archives

Contents of files and messages. A packed archive is one piece of content, told
apart from the octets around it, which holds its members.
-/

namespace Workbench

namespace Archive

inductive Kind where
  | file
  | directory
  | symbolicLink
  | hardLink
  | pipe
deriving DecidableEq, Inhabited

structure Member where
  name : Text
  kind : Kind
  data : List UInt8
deriving DecidableEq, Inhabited

inductive Fault where
  | empty
  | notCompressed
  /-- The compressed data ends too early. -/
  | truncated
deriving DecidableEq

def Fault.message : Fault → Text
  | empty => "empty file"
  | notCompressed => "not a gzip file"
  | truncated => "Compressed file ended before the end-of-stream marker was reached"

end Archive

/-- A piece of content: an octet, or an archive as a whole. -/
inductive Piece where
  | octet (b : UInt8)
  | archive (members : List Archive.Member)
deriving DecidableEq, Inhabited

abbrev Content := List Piece

namespace Content

def ofOctets (bytes : List UInt8) : Content := bytes.map .octet

/-- The octets of the content; those of an archive are not known. -/
def octets (c : Content) : List UInt8 :=
  c.filterMap fun
    | .octet b => some b
    | .archive _ => none

def text (c : Content) : Text := Utf8.decode (octets c)

end Content

namespace Archive

def nameRoom : Nat := 100

def withoutSlashes (name : Text) : Text := name.trimRight (· == Path.slash)

/-- The name under which a member is written: that of a directory ends with a slash. -/
def writtenName (kind : Kind) (name : Text) : Text :=
  if kind = .directory && name.getLast? != some Path.slash then name ++ [Path.slash] else name

/-- A name fits into the header when it is short and ASCII. -/
def fits (name : Text) : Bool := name.all (·.val < 128) && name.length ≤ nameRoom

/-- The name that is read back. One in the header ends at a zero character,
another one loses the slashes at its end, and so does that of a directory. -/
def storedName (kind : Kind) (name : Text) : Text :=
  let written := writtenName kind name
  let back := if fits written then written.takeWhile (·.val != 0) else withoutSlashes written
  if kind = .directory then withoutSlashes back else back

def Member.stored (m : Member) : Member := { m with name := storedName m.kind m.name }

def pack (members : List Member) : Content := [.archive (members.map Member.stored)]

/-- The octets of a compressed file: a mark of two, a method, and seven more. -/
def isCompressed (bytes : List UInt8) : Bool :=
  bytes.take 2 == [0x1F, 0x8B] && (bytes.length < 10 || bytes[2]? == some 8)

def read (c : Content) : Except Fault (List Member) :=
  match c with
  | [] => .error .empty
  | .archive members :: _ => .ok members
  | .octet _ :: _ => .error (if isCompressed (Content.octets c) then .truncated else .notCompressed)

end Archive

end Workbench
