import Workbench.Path.Normal

/-! # Path names

A path as its leading slashes and its components. Empty and `.` components are
left out, `..` is kept: nothing is looked up.
-/

namespace Workbench

structure PathName where
  anchor : Nat
  parts : List Text
deriving DecidableEq, Inhabited

namespace PathName

def ofText (t : Text) : PathName := ⟨Path.leading t, Path.components t⟩

def text (p : PathName) : Text :=
  match Path.slashes p.anchor ++ Text.join [Path.slash] p.parts with
  | [] => Path.dot
  | t => t

def isAbsolute (p : PathName) : Bool := 0 < p.anchor

def under (dir p : PathName) : PathName :=
  if p.isAbsolute then p else ⟨dir.anchor, dir.parts ++ p.parts⟩

def absolute [Path.WorkingDirectory] (p : PathName) : PathName :=
  under (ofText Path.workingDirectory) p

def child (p : PathName) (name : Text) : PathName := p.under (ofText name)

def name (p : PathName) : Text := p.parts.getLastD []

def parent (p : PathName) : PathName := ⟨p.anchor, p.parts.dropLast⟩

theorem length_parent_lt {p : PathName} (h : p.parts ≠ []) :
    p.parent.parts.length < p.parts.length := by
  have := List.length_pos_iff.mpr h
  simp only [parent, List.length_dropLast]
  omega

def withName (p : PathName) (name : Text) : PathName := ⟨p.anchor, p.parts.dropLast ++ [name]⟩

/-- The end of the last component from its last dot on; a dot at either end of
the component begins none. -/
def suffix (p : PathName) : Text :=
  match Text.cutLast? '.' p.name with
  | some (before, after) => if before.isEmpty || after.isEmpty then [] else .char '.' :: after
  | none => []

/-- The path or a directory above it. -/
def isWithin (p dir : PathName) : Bool := p.anchor == dir.anchor && dir.parts.isPrefixOf p.parts

end PathName

end Workbench
