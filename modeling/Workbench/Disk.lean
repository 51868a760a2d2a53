import Workbench.Archive
import Workbench.OrderedMap
import Workbench.Path.Name
import Workbench.Text.Quoted

/-! # Disks

Directories and files by the components of their places below the root. A path
is followed component by component; `..` leads to the directory above.
-/

namespace Workbench

variable [Path.WorkingDirectory]

inductive Node where
  | directory
  | file (content : Content) (executable : Bool)
deriving DecidableEq

structure Disk where
  nodes : OrderedMap (List Text) Node := {}
deriving DecidableEq, Inhabited

namespace Disk

inductive Trouble where
  | missing
  | present
  | notDirectory
  | isDirectory
  | nameTooLong
  | zeroCharacter
deriving DecidableEq

structure Fault where
  trouble : Trouble
  path : PathName
deriving DecidableEq

def Trouble.description : Trouble → Text
  | missing => "[Errno 2] No such file or directory"
  | present => "[Errno 17] File exists"
  | notDirectory => "[Errno 20] Not a directory"
  | isDirectory => "[Errno 21] Is a directory"
  | nameTooLong => "[Errno 36] File name too long"
  | zeroCharacter => "embedded null byte"

def Fault.message (f : Fault) : Text :=
  if f.trouble = .zeroCharacter then f.trouble.description
  else f.trouble.description ++ ": " ++ f.path.text.quoted

def nameLimit : Nat := 255

def pathLimit : Nat := 4095

def workingPlace : List Text := Path.components Path.workingDirectory

/-- What stands at a place; the working directory and those above it are directories. -/
def node? (d : Disk) (place : List Text) : Option Node :=
  if place <+: workingPlace then some .directory else d.nodes.get? place

def put (d : Disk) (place : List Text) (n : Node) : Disk := ⟨d.nodes.insert place n⟩

/-! ## Following paths -/

def enter (here : List Text) (name : Text) : Except Trouble (List Text) :=
  if name = Path.dotDot then .ok here.dropLast
  else if nameLimit < (Utf8.encode name).length then .error .nameTooLong
  else .ok (here ++ [name])

/-- Follows components from a place. There must be a directory wherever one is
looked up; nothing need stand at the last place. -/
def follow (d : Disk) (here : List Text) : List Text → Except Trouble (List Text)
  | [] => .ok here
  | name :: rest =>
    match d.node? here with
    | none => .error .missing
    | some (.file ..) => .error .notDirectory
    | some .directory =>
      match enter here name with
      | .error t => .error t
      | .ok place => d.follow place rest

def start (p : PathName) : List Text :=
  if p.isAbsolute then [] else workingPlace

def place (d : Disk) (p : PathName) : Except Trouble (List Text) :=
  if p.text.any (·.val == 0) then .error .zeroCharacter
  else if pathLimit < (Utf8.encode p.text).length then .error .nameTooLong
  else d.follow (start p) p.parts

def find (d : Disk) (p : PathName) : Except Fault (List Text × Node) :=
  match d.place p with
  | .error t => .error ⟨t, p⟩
  | .ok place =>
    match d.node? place with
    | none => .error ⟨.missing, p⟩
    | some n => .ok (place, n)

/-- Something stands at a path. A name that is too long cannot be looked up. -/
def contains (d : Disk) (p : PathName) : Except Fault Bool :=
  match d.find p with
  | .ok _ => .ok true
  | .error f => if f.trouble = .nameTooLong then .error f else .ok false

def isDirectory (d : Disk) (p : PathName) : Bool :=
  match d.find p with
  | .ok (_, .directory) => true
  | _ => false

/-! ## Files -/

def read (d : Disk) (p : PathName) : Except Fault Content :=
  match d.find p with
  | .error f => .error f
  | .ok (_, .directory) => .error ⟨.isDirectory, p⟩
  | .ok (_, .file content _) => .ok content

/-- Writes a file, which is new and not executable or stays what it was. -/
def write (d : Disk) (p : PathName) (content : Content) : Except Fault Disk :=
  match d.place p with
  | .error t => .error ⟨t, p⟩
  | .ok place =>
    match d.node? place with
    | none => .ok (d.put place (.file content false))
    | some .directory => .error ⟨.isDirectory, p⟩
    | some (.file _ executable) => .ok (d.put place (.file content executable))

/-- Lets everyone execute a file; a directory stays as it is. -/
def makeExecutable (d : Disk) (p : PathName) : Except Fault Disk :=
  match d.find p with
  | .error f => .error f
  | .ok (_, .directory) => .ok d
  | .ok (place, .file content _) => .ok (d.put place (.file content true))

def move (d : Disk) (source target : PathName) : Except Fault Disk :=
  match d.find source, d.place target with
  | .error f, _ => .error f
  | .ok _, .error t => .error ⟨t, source⟩
  | .ok (start, n), .ok goal =>
    if d.node? goal = some .directory then .error ⟨.isDirectory, source⟩
    else .ok (Disk.put ⟨d.nodes.erase start⟩ goal n)

/-! ## Directories -/

def makeDirectory (d : Disk) (p : PathName) : Except Fault Disk :=
  match d.place p with
  | .error t => .error ⟨t, p⟩
  | .ok place =>
    match d.node? place with
    | some _ => .error ⟨.present, p⟩
    | none => .ok (d.put place .directory)

/-- A directory that could not be made is no fault where there is one. -/
def settle (d : Disk) (p : PathName) : Except Fault Disk → Disk × Option Fault
  | .ok d => (d, none)
  | .error f => if d.isDirectory p then (d, none) else (d, some f)

/-- Makes a directory and those above it that are missing. What was made stays
where the rest cannot be. -/
def ensureDirectory (d : Disk) (p : PathName) : Disk × Option Fault :=
  match d.makeDirectory p with
  | .ok d => (d, none)
  | .error f =>
    if f.trouble = .missing then
      if h : p.parts = [] then (d, some f)
      else
        have := PathName.length_parent_lt h
        match d.ensureDirectory p.parent with
        | (d, some f) => (d, some f)
        | (d, none) => d.settle p (d.makeDirectory p)
    else d.settle p (.error f)
termination_by p.parts.length

def withFile (d : Disk) (p : PathName) (content : Content) : Disk :=
  let d := (d.ensureDirectory p.parent).1
  match d.write p content with
  | .ok d => d
  | .error _ => d

/-! ## Listings -/

structure File where
  path : Text
  content : Content
  executable : Bool
deriving DecidableEq

def fileOf : List Text × Node → Option File
  | (place, .file content executable) => some ⟨Text.join [Path.slash] place, content, executable⟩
  | _ => none

def files (d : Disk) : List File :=
  (d.nodes.entries.filterMap fileOf).mergeSort fun a b => Text.le a.path b.path

end Disk

end Workbench
