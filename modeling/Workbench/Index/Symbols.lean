import Workbench.Path.Normal
import Workbench.Record

/-! # Symbols of workspace roots

Two views of the symbols of successful builds: by root, for search, and by
file. A file belongs to the root that committed it last. A commit replaces the
root's symbols and the files that belong to it.
-/

namespace Workbench

open Json (Value)

variable [Path.WorkingDirectory]

structure Symbol where
  name : Text
  kind : Option SymbolKind := none
  container : Text := []
  path : Text
  uri : Text
  range : Range
deriving DecidableEq, Inhabited

namespace Symbol

def editorKind (s : Symbol) : Text := SymbolKind.editorKind s.kind

def readKind : Value → Except Field.Fault (Option SymbolKind)
  | .null => .ok none
  | .str t => match SymbolKind.ofName? t with
    | some k => .ok (some k)
    | none => .error .notMember
  | _ => .error .notMember

def read [Field.Coercion] (ms : Field.Members) : Checked Symbol :=
  Symbol.mk <$> Field.required ms "name" Field.text
    <*> Field.optional ms "kind" none readKind
    <*> Field.optional ms "container_name" [] Field.text
    <*> Field.required ms "path" Field.text
    <*> Field.required ms "uri" Field.text
    <*> Field.nested ms "range" Range.read

/-- The name holds the query, in capitals or not. -/
def isMatch (query : Text) (s : Symbol) : Bool := Text.hasPart query.lower s.name.lower

end Symbol

abbrev SymbolsByFile := OrderedMap Text (List Symbol)

structure SymbolIndex where
  byRoot : OrderedMap Text (List Symbol) := {}
  byFile : SymbolsByFile := {}
  /-- The files that a root mentioned in its last commit. -/
  filesOf : OrderedMap Text (List Text) := {}
  /-- The root that committed a file last. -/
  owner : OrderedMap Text Text := {}
deriving Inhabited, DecidableEq

namespace SymbolIndex

def group (symbols : List Symbol) : SymbolsByFile :=
  symbols.foldl (fun m s => m.push s.uri s) {}

/-- The files of a root that belong to it and are not mentioned any more. -/
def stale (x : SymbolIndex) (key : Text) (files : SymbolsByFile) : List Text :=
  (x.filesOf.getD key []).filter fun uri => !files.contains uri && x.owner.get? uri == some key

/-- Replaces the symbols of a root, given by file as well. -/
def commitFiles (x : SymbolIndex) (root : Text) (symbols : List Symbol)
    (files : SymbolsByFile) : SymbolIndex :=
  let key := Path.rootKey root
  let gone := x.stale key files
  { byRoot := x.byRoot.insert key symbols
    byFile := (gone.foldl OrderedMap.erase x.byFile).insertAll files.entries
    filesOf := x.filesOf.insert key files.keys
    owner := (gone.foldl OrderedMap.erase x.owner).insertAll (files.keys.map (·, key)) }

def commit (x : SymbolIndex) (root : Text) (symbols : List Symbol) : SymbolIndex :=
  x.commitFiles root symbols (group symbols)

def forRoot (x : SymbolIndex) (root : Text) : List Symbol :=
  x.byRoot.getD (Path.rootKey root) []

def forFile (x : SymbolIndex) (uri : Text) : List Symbol := x.byFile.getD uri []

def search (x : SymbolIndex) (query : Text) : List Symbol :=
  x.byRoot.values.flatten.filter (·.isMatch query)

def roots (x : SymbolIndex) : List Text := x.byRoot.keys.mergeSort Text.le

def summary (x : SymbolIndex) : Text :=
  "SymbolIndex(roots=" ++ Text.ofNat x.byRoot.size ++ ", files=" ++
    Text.ofNat x.byFile.size ++ ")"

end SymbolIndex

end Workbench
