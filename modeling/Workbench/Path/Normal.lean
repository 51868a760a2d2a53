import Workbench.Text.Basic

/-! # Normal paths

Paths as texts. The normal form has no empty and no `.` component and resolves
`..` where it can; exactly two leading slashes are kept, more count as one. What is
no absolute path is below the working directory.
-/

namespace Workbench.Path

def slash : CodePoint := .char '/'

def dot : Text := "."

def dotDot : Text := ".."

def pieces (t : Text) : List Text := t.splitOn slash

def components (t : Text) : List Text := (pieces t).filter fun p => p != [] && p != dot

/-- How many leading slashes count: none, one, or exactly two. -/
def leading (t : Text) : Nat :=
  match (t.takeWhile (· == slash)).length with
  | 0 => 0
  | 2 => 2
  | _ => 1

def isAbsolute (t : Text) : Bool := 0 < leading t

def slashes (n : Nat) : Text := List.replicate n slash

/-- Adds a component to the resolved ones, last first. A `..` takes one away,
and is kept at the front of a relative path only. -/
def resolveStep (anchored : Bool) (stack : List Text) (c : Text) : List Text :=
  if c = dotDot then
    match stack with
    | [] => if anchored then [] else [c]
    | top :: rest => if top = dotDot then c :: stack else rest
  else c :: stack

def resolve (anchored : Bool) (cs : List Text) : List Text :=
  (cs.foldl (resolveStep anchored) []).reverse

def normal (t : Text) : Text :=
  match slashes (leading t) ++ Text.join [slash] (resolve (isAbsolute t) (components t)) with
  | [] => dot
  | p => p

def join (dir path : Text) : Text :=
  if isAbsolute path then path
  else if dir.isEmpty || dir.getLast? == some slash then dir ++ path
  else dir ++ [slash] ++ path

def joinAll (dir : Text) (segments : List Text) : Text := segments.foldl join dir

class WorkingDirectory where
  workingDirectory : Text
  isAbsolute_workingDirectory : isAbsolute workingDirectory

export WorkingDirectory (workingDirectory isAbsolute_workingDirectory)

abbrev WorkingDirectory.root : WorkingDirectory := ⟨[slash], rfl⟩

variable [WorkingDirectory]

def absolute (t : Text) : Text := normal (join workingDirectory t)

/-- The identity of a workspace root. -/
def rootKey (t : Text) : Text := normal (absolute t)

end Workbench.Path
