import Workbay.Compiler.Merge

/-!
# The partition of conflicts

The conflict graph of any pairs of lanes, with its colours and its measures.
-/

namespace Workbay.Compiler

open Workbay.Manifest

variable (edges : List (String × String))

/-- The number of lanes that a lane conflicts with. -/
def degree (lane : String) : Nat := (neighbours edges lane).length

end Workbay.Compiler
