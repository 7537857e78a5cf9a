import Mathlib.Algebra.Group.Action.Defs
import Mathlib.Data.Nat.Log
import Workbay.Reading.Proofs.CutProofs
import Workbay.Reading.Stamp

/-!
# The final byte stamp converges

With a compact serializer the size is what the envelope takes without its stamps and, for every copy
of a stamp, its key and its digits. The number of digits of the size changes once at most.
-/

namespace Workbay.Reading

open List

/-! ## A size that counts its own digits -/

/-- The bytes of a decimal number. -/
def width (n : Int) : Nat := (if n < 0 then 1 else 0) + (Nat.log 10 n.natAbs + 1)

/-- The copies of the envelope, each with whether it is escaped in a text. -/
def ContentCarrier.copies : ContentCarrier → List Bool
  | .both => [true, false]
  | .structured => [false]

variable (counters : Members)

/-- The bytes of `"final_bytes":`, with a comma if the object has other members. -/
def keyBytes (escaped : Bool) : Nat :=
  14 + (if escaped then 2 else 0) + (if Dict.pop counters "final_bytes" = [] then 0 else 1)

/-- The bytes of the keys of a stamp in all copies. -/
def keysBytes (carrier : ContentCarrier) (counters : Members) : Nat :=
  (carrier.copies.map (keyBytes counters)).sum

/-- The bytes of one stamp in all copies. -/
def writtenIn (carrier : ContentCarrier) (counters : Members) : Nat :=
  match counters.get? "final_bytes" with
  | some (.int n) => keysBytes carrier counters + carrier.copies.length * width n
  | _ => 0

/-- The bytes of all stamps. -/
def written (carrier : ContentCarrier) (envelope : Members) : Nat :=
  ((metadata envelope).map (writtenIn carrier)).sum

/-- Every stamp that is there is an integer. -/
def Counted (envelope : Members) : Prop :=
  ∀ counters ∈ metadata envelope, ∀ value, counters.get? "final_bytes" = some value →
    ∃ n, value = .int n

variable {carrier : ContentCarrier} {envelope : Members}

/-- Every stamp that is there is an integer of at most 12 digits. -/
def Stampable (envelope : Members) : Prop :=
  ∀ counters ∈ metadata envelope, ∀ value, counters.get? "final_bytes" = some value →
    ∃ n, value = .int n ∧ n.natAbs < 10 ^ 12

theorem Stampable.counted (h : Stampable envelope) : Counted envelope := by
  intro counters hcounters value hvalue
  obtain ⟨n, hn, -⟩ := h counters hcounters value hvalue
  exact ⟨n, hn⟩

variable {measure base : Members → Nat}

end Workbay.Reading
