/-! # Ordered maps

A map that remembers the order in which its keys were first entered. Entering
a key again replaces the value and keeps the place.
-/

namespace Workbench

/-- Entries in the order of their keys' first insertion. -/
structure OrderedMap (α β : Type) where
  entries : List (α × β) := []
deriving Inhabited, DecidableEq

namespace OrderedMap

variable {α β : Type} [DecidableEq α]

/-- Replaces the value of a key in its place, or adds the entry at the end. -/
def insertEntry (k : α) (v : β) : List (α × β) → List (α × β)
  | [] => [(k, v)]
  | e :: rest => if e.1 = k then (k, v) :: rest else e :: insertEntry k v rest

def empty : OrderedMap α β := {}

def insert (m : OrderedMap α β) (k : α) (v : β) : OrderedMap α β :=
  ⟨insertEntry k v m.entries⟩

def get? (m : OrderedMap α β) (k : α) : Option β :=
  (m.entries.find? (·.1 = k)).map (·.2)

def getD (m : OrderedMap α β) (k : α) (default : β) : β := (m.get? k).getD default

def contains (m : OrderedMap α β) (k : α) : Bool := m.entries.any (·.1 = k)

def erase (m : OrderedMap α β) (k : α) : OrderedMap α β :=
  ⟨m.entries.filter (·.1 ≠ k)⟩

def keys (m : OrderedMap α β) : List α := m.entries.map (·.1)

def values (m : OrderedMap α β) : List β := m.entries.map (·.2)

def size (m : OrderedMap α β) : Nat := m.entries.length

def insertAll (m : OrderedMap α β) (entries : List (α × β)) : OrderedMap α β :=
  entries.foldl (fun m e => m.insert e.1 e.2) m

def ofList (entries : List (α × β)) : OrderedMap α β := empty.insertAll entries

def map {γ : Type} (f : β → γ) (m : OrderedMap α β) : OrderedMap α γ :=
  ⟨m.entries.map fun e => (e.1, f e.2)⟩

def push (m : OrderedMap α (List β)) (k : α) (v : β) : OrderedMap α (List β) :=
  m.insert k (m.getD k [] ++ [v])

end OrderedMap

end Workbench
