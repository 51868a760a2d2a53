import Workbench.Field.Lax
import Workbench.Json.Reader
import Workbench.Path.Normal

/-! # Surroundings

What holds for a whole run and is not decided here: the working directory, how deep
containers may nest, and how numbers and switches are read.
-/

namespace Workbench

class Surroundings extends Path.WorkingDirectory, Json.Nesting, Field.Coercion

namespace Surroundings

/-- A run in the root directory, with room for 990 containers within each other. -/
scoped instance usual : Surroundings where
  toWorkingDirectory := Path.WorkingDirectory.root
  depthLimit := 990
  toCoercion := Field.Coercion.lax

end Surroundings

end Workbench
