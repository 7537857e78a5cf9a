import Mathlib.Algebra.Order.Ring.Rat
import Workbay.Data.Dict

/-!
# Admission of submissions

The pressure on the machine is measured, and one more submission is admitted while it fits with all
pending ones. What is not measured is not admitted.
-/

namespace Workbay.Wave

/-- What a gauge shows. -/
inductive GaugeValue where
  | int (n : Int)
  | float (q : ℚ)
  /-- An infinity, or no number. -/
  | notFinite
  | bool (b : Bool)
  | text (s : String)
  | other
deriving DecidableEq

abbrev Gauges := Dict String GaugeValue

/-- `_finite_number` -/
def finiteNumber (value : Option GaugeValue) (integer : Bool) : Option ℚ :=
  match value with
  | some (.int n) => if n < 0 then none else some n
  | some (.float q) => if q < 0 ∨ (integer = true ∧ q.den ≠ 1) then none else some q
  | _ => none

/-- `_finite_number` of an integer -/
def finiteInteger (value : Option GaugeValue) : Option Int := (finiteNumber value true).map Rat.num

/-- A bound: `"max"` is none at all. -/
inductive Limit where
  | max
  | upTo (n : Int)
deriving DecidableEq

/-- `_limit_value` -/
def limitValue (gauges : Gauges) (name : String) : Option Limit :=
  if gauges.get? name = some (.text "max") then some .max
  else (finiteInteger (gauges.get? name)).map .upTo

/-- What a submission needs. -/
structure Costs where
  pids : Int
  anonBytes : Int
  diskBytes : Int
deriving DecidableEq

namespace Costs

/-- Both at once. -/
def add (a b : Costs) : Costs := ⟨a.pids + b.pids, a.anonBytes + b.anonBytes, a.diskBytes + b.diskBytes⟩

/-- The same, a number of times. -/
def scale (n : Int) (a : Costs) : Costs := ⟨n * a.pids, n * a.anonBytes, n * a.diskBytes⟩

/-- All at once. -/
def sum : List Costs → Costs
  | [] => ⟨0, 0, 0⟩
  | a :: rest => a.add (sum rest)

/-- Not more of anything. -/
def Le (a b : Costs) : Prop := a.pids ≤ b.pids ∧ a.anonBytes ≤ b.anonBytes ∧ a.diskBytes ≤ b.diskBytes

end Costs

/-! ## Pending submissions -/

/-- The submissions that are pending: how many there are, or what each of them says that it needs. An
entry may not be a mapping. -/
inductive Pending where
  | count (n : Int)
  | entries (es : List (Option Gauges))
  | malformed

/-- What a pending submission needs of one thing: what it says, or an estimate. -/
def entryCost (entry : Gauges) (key : String) (estimate : Int) : Option Int :=
  match entry.get? key with
  | none => some estimate
  | some value => finiteInteger (some value)

/-- What a pending submission needs. -/
def entryCosts (entry : Option Gauges) (candidate : Costs) : Option Costs :=
  entry.bind fun entry =>
    match entryCost entry "pids" candidate.pids, entryCost entry "anon_bytes" candidate.anonBytes,
      entryCost entry "disk_bytes" candidate.diskBytes with
    | some pids, some anonBytes, some diskBytes => some ⟨pids, anonBytes, diskBytes⟩
    | _, _, _ => none

/-- The names of the estimates of a pending submission. -/
def entryEstimates (index : Nat) (entry : Option Gauges) : List String :=
  (["pids", "anon_bytes", "disk_bytes"].filter fun key =>
    decide ((Dict.get? (entry.getD []) key) = none)).map fun key =>
      "pending[" ++ toString index ++ "]." ++ key

/-- `_pending_resource_costs`: what all pending submissions need, and which of it is estimated. -/
def pendingResourceCosts (pending : Pending) (candidate : Costs) : Option (Costs × List String) :=
  match pending with
  | .malformed => none
  | .count n => if n < 0 then none else some (candidate.scale n, [])
  | .entries es =>
    (es.mapM fun entry => entryCosts entry candidate).map fun costs =>
      (Costs.sum costs, es.zipIdx.flatMap fun (entry, index) => entryEstimates index entry)

/-! ## The decision -/

/-- `required_gauges`: the name of a gauge, whether it is an integer, and what it measures. -/
def requiredGauges : List (String × Bool × String) := [
  ("pids_current", true, "vm_pids"),
  ("memory_anon_bytes", true, "vm_memory"),
  ("memory_psi_avg60", false, "vm_memory_psi"),
  ("cpu_psi_avg60", false, "vm_cpu_psi"),
  ("disk_free_bytes", true, "vm_disk"),
  ("disk_floor_bytes", true, "vm_disk"),
  ("memory_headroom_pct", true, "vm_memory"),
  ("memory_psi_max", false, "vm_memory_psi"),
  ("cpu_psi_max", false, "vm_cpu_psi"),
  ("pids_reserve", true, "vm_pids"),
  ("memory_reserve_bytes", true, "vm_memory")]

variable (gauges : Gauges)

/-- A required gauge shows a number, and a reserve a positive one. -/
def isMeasured (name : String) (integer : Bool) : Bool :=
  (finiteNumber (gauges.get? name) integer).any fun value =>
    decide (name ∈ ["pids_reserve", "memory_reserve_bytes"] → 0 < value)

/-- The value of a gauge that is measured. -/
def gaugeInteger (name : String) : Int :=
  (finiteInteger (gauges.get? name)).getD 0

def gaugeNumber (name : String) : ℚ :=
  (finiteNumber (gauges.get? name) false).getD 0

/-- `AdmissionDecision`, with the details about costs -/
structure MeasuredDecision where
  admitted : Bool
  reason : String
  pendingCostEstimates : List String := []
  pendingCosts : Option Costs := none
  projectedCosts : Option Costs := none
deriving DecidableEq

/-- What a decision rests on. -/
structure Projection where
  pidsMax : Limit
  memoryMax : Limit
  pending : Costs
  estimates : List String
  costs : Costs

/-- A reason that names what is not measured. -/
def unmeasured (gauge : String) : String := "vm_admission_unmeasured:" ++ gauge

/-- What the candidate needs, or what is not measured of it. -/
def candidateCosts (measuredCost : Gauges) : Except String Costs :=
  match finiteInteger (measuredCost.get? "pids"),
    finiteInteger (measuredCost.get? "anon_bytes"),
    finiteInteger (measuredCost.get? "disk_bytes") with
  | none, _, _ => .error (unmeasured "vm_pids_cost")
  | _, none, _ => .error (unmeasured "vm_memory_cost")
  | _, _, none => .error (unmeasured "vm_disk_cost")
  | some pids, some anonBytes, some diskBytes => .ok ⟨pids, anonBytes, diskBytes⟩

/-- What the decision rests on, or what is not measured. -/
def project (pending : Pending) (measuredCost : Gauges) :
    Except String Projection :=
  match requiredGauges.find? fun g => !isMeasured gauges g.1 g.2.1 with
  | some g => .error (unmeasured g.2.2)
  | none =>
    match limitValue gauges "pids_max", limitValue gauges "memory_max_bytes" with
    | none, _ => .error (unmeasured "vm_pids")
    | _, none => .error (unmeasured "vm_memory")
    | some pidsMax, some memoryMax =>
      match candidateCosts measuredCost with
      | .error reason => .error reason
      | .ok costs =>
        match pendingResourceCosts pending costs with
        | none => .error (unmeasured "vm_pending")
        | some (total, estimates) => .ok ⟨pidsMax, memoryMax, total, estimates, costs⟩

/-- What is used once the pending submissions and the candidate run. -/
def Projection.projected (p : Projection) : Costs :=
  ⟨gaugeInteger gauges "pids_current" + p.pending.pids + p.costs.pids,
    gaugeInteger gauges "memory_anon_bytes" + p.pending.anonBytes + p.costs.anonBytes,
    p.pending.diskBytes + p.costs.diskBytes⟩

/-- Memory without a bound is exempted. -/
def isExempt : Bool :=
  decide (gauges.get? "unlimited_memory_exemption" = some (.bool true))

/-- How much memory may be used, if there is a bound; it may not be measured. -/
def memoryLimit (memoryMax : Limit) : Except String (Option Int) :=
  match memoryMax with
  | .upTo n =>
    .ok (some (min (n * gaugeInteger gauges "memory_headroom_pct" / 100)
      (n - gaugeInteger gauges "memory_reserve_bytes")))
  | .max =>
    if isExempt gauges then .ok none
    else
      match finiteInteger (gauges.get? "memory_available_bytes") with
      | none => .error (unmeasured "vm_memory_limit")
      | some available =>
        .ok (some (gaugeInteger gauges "memory_anon_bytes" +
          max 0 (available - gaugeInteger gauges "memory_reserve_bytes")))

/-- Whether a number is above a limit. -/
def exceeds (n : Int) : Limit → Bool
  | .max => false
  | .upTo m => decide (m < n)

/-- Why the candidate is refused, or admitted. -/
def verdict (p : Projection) : Except String String :=
  let projected := p.projected gauges
  if ¬ (1 ≤ gaugeInteger gauges "memory_headroom_pct" ∧
      gaugeInteger gauges "memory_headroom_pct" ≤ 100) then
    .error (unmeasured "vm_memory_headroom")
  else if exceeds (projected.pids + gaugeInteger gauges "pids_reserve") p.pidsMax then
    .error "vm_pids"
  else
    match memoryLimit gauges p.memoryMax with
    | .error reason => .error reason
    | .ok limit =>
      if limit.any fun limit => decide (limit < projected.anonBytes) then .error "vm_memory"
      else if gaugeNumber gauges "memory_psi_max" < gaugeNumber gauges "memory_psi_avg60" then
        .error "vm_memory_psi"
      else if gaugeNumber gauges "cpu_psi_max" < gaugeNumber gauges "cpu_psi_avg60" then
        .error "vm_cpu_psi"
      else if gaugeInteger gauges "disk_free_bytes" - projected.diskBytes <
          gaugeInteger gauges "disk_floor_bytes" then
        .error "vm_disk"
      else if p.memoryMax = .max ∧ isExempt gauges = true then
        .ok "admit:WORKBAY_REMOTE_GATE_ALLOW_UNLIMITED_MEMORY"
      else .ok "admit"

/-- `decide` -/
def decideAdmission (pending : Pending) (measuredCost : Gauges) :
    MeasuredDecision :=
  match project gauges pending measuredCost with
  | .error reason => { admitted := false, reason }
  | .ok p =>
    { admitted := match verdict gauges p with
        | .ok _ => true
        | .error _ => false
      reason := match verdict gauges p with
        | .ok reason => reason
        | .error reason => reason
      pendingCostEstimates := p.estimates
      pendingCosts := some p.pending
      projectedCosts := some (p.projected gauges) }

end Workbay.Wave
