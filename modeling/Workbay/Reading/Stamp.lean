import Workbay.Reading.FinalBudget

/-!
# The final byte stamp

An envelope is measured with its content carrier, the size is written into the objects that report
it, and the envelope is measured again: the size that is written is part of what is measured.
-/

namespace Workbay.Reading

/-- `_MCP_CONTENT_CARRIERS` -/
inductive ContentCarrier where
  | both
  | structured
deriving DecidableEq

/-- The members of `data` that report the size, where they are objects. -/
def metadataKeys : List String := ["truncation", "read_budget"]

/-- The objects that report the size. -/
def metadata (envelope : Members) : List Members :=
  match inside envelope "data" with
  | some data => metadataKeys.filterMap (inside data)
  | none => []

end Workbay.Reading
