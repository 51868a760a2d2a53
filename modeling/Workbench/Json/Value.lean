import Workbench.Number.Binary64
import Workbench.OrderedMap
import Workbench.Text.Basic

/-! # JSON values

Integers and floating point numbers are kept apart. The members of an object
keep the order of the first mention of their names.
-/

namespace Workbench.Json

inductive Value where
  | null
  | bool (b : Bool)
  | int (n : Int)
  | float (x : Binary64)
  | str (t : Text)
  | arr (items : List Value)
  | obj (members : List (Text × Value))
deriving Inhabited

namespace Value

/-- An object from members in order; of a name given twice the last value counts. -/
def object (members : List (Text × Value)) : Value :=
  .obj (OrderedMap.ofList members).entries

def ofString (s : String) : Value := .str s

def get? (v : Value) (name : Text) : Option Value :=
  match v with
  | obj members => (OrderedMap.mk members).get? name
  | _ => none

end Value

end Workbench.Json
