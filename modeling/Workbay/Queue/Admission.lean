import Workbay.Data.Dict
import Workbay.Data.Number

/-!
# The lane queue: admission from measured gauges
-/

namespace Workbay.Queue

/-- A value that a gauge, a sample or a configuration hands over. -/
inductive Reading where
  | none
  | bool (b : Bool)
  | num (n : Number)
  | str (s : String)
  | other
deriving DecidableEq

/-- What a mapping of gauges, costs or samples holds; a key that is absent reads as `None`. -/
abbrev Readings := Dict String Reading

/-- `readings.get(key)` -/
def Readings.read (readings : Readings) (key : String) : Reading :=
  readings.getD key .none

/-- `_finite_number(value, integer=True)` -/
def finiteInteger : Reading → Option Nat
  | .num (.int n) => if 0 ≤ n then some n.toNat else none
  | .num (.float q) => if 0 ≤ q ∧ q.den = 1 then some q.num.toNat else none
  | _ => none

/-- `_finite_number(value)` -/
def finiteNumber : Reading → Option Number
  | .num (.int n) => if 0 ≤ n then some (.int n) else none
  | .num (.float q) => if 0 ≤ q then some (.float q) else none
  | _ => none

/-- A limit that may be absent. -/
inductive Limit where
  | max
  | atMost (n : Nat)
deriving DecidableEq

/-- `_limit_value` -/
def limitValue (gauges : Readings) (name : String) : Option Limit :=
  if gauges.read name = .str "max" then some .max
  else (finiteInteger (gauges.read name)).map .atMost

/-- The directories that wait: their number, or what each of them takes. -/
inductive Pending where
  | count (n : Int)
  | entries (disk : List Reading)
  | other

/-- `_pending_disk_cost` -/
def pendingDiskCost (candidate : Nat) : Pending → Option Nat
  | .count n => if 0 ≤ n then some (n.toNat * candidate) else none
  | .entries disk => (disk.mapM finiteInteger).map List.sum
  | .other => none

/-- The outcome of a check: a candidate is refused for a reason, or a number is too large. -/
inductive Halt where
  | refused (reason : String)
  | overflow
deriving DecidableEq

/-- What a check needs, or a refusal. -/
def require {α : Type} (value : Option α) (reason : String) : Except Halt α :=
  match value with
  | some a => .ok a
  | none => .error (.refused reason)

/-- The candidate is refused when something holds. -/
def refuseIf (condition : Prop) [Decidable condition] (reason : String) : Except Halt Unit :=
  if condition then .error (.refused reason) else .ok ()

/-! ## Phases -/

/-- A phase's measured demand. -/
structure PhaseVector where
  cpuMillicores : Reading
  anonBytes : Reading
  pids : Reading
  diskBytes : Reading

/-- The fields of a phase with their dimensions, in order. -/
def PhaseVector.fields (vector : PhaseVector) : List (String × Reading) :=
  [("cpu", vector.cpuMillicores), ("memory", vector.anonBytes), ("pids", vector.pids),
    ("disk", vector.diskBytes)]

/-- The fields of a phase that may be missing. -/
def phaseFields : Option PhaseVector → List (String × Reading)
  | some vector => vector.fields
  | none => (PhaseVector.mk .none .none .none .none).fields

/-- One dimension of `admit_phase`. -/
def admitDimension (dimension : String) (limit charged requested : Reading) :
    Except Halt Unit := do
  let reason := "vm_admission_unmeasured:" ++
    (if dimension = "cpu" then "vm_cpu_profile" else "vm_" ++ dimension ++ "_profile")
  let limit ← require (finiteInteger limit) reason
  let charged ← require (finiteInteger charged) reason
  let requested ← require (finiteInteger requested) reason
  refuseIf (limit < charged + requested) ("phase_" ++ dimension)

/-- `admit_phase` -/
def admitPhase (budget held candidate : Option PhaseVector) : Except Halt Unit :=
  match budget with
  | none => .error (.refused "vm_admission_unmeasured:cotenant_reserve")
  | some budget =>
    (budget.fields.zip ((phaseFields held).zip (phaseFields candidate))).forM
      fun ((dimension, limit), (_, charged), (_, requested)) =>
        admitDimension dimension limit charged requested

/-! ## Admission -/

/-- `projected_disk_pct` -/
def projectedDiskPct (used available pending : Nat) : Option Nat :=
  if used + available = 0 then none
  else some ((100 * (used + pending) + (used + available) - 1) / (used + available))

/-- The gauges that every admission needs. -/
structure Gauges where
  pidsCurrent : Nat
  memoryAnonBytes : Nat
  memoryPsiAvg60 : Number
  cpuPsiAvg60 : Number
  diskFreeBytes : Nat
  diskFloorBytes : Nat
  memoryHeadroomPct : Nat
  memoryPsiMax : Number
  cpuPsiMax : Number
  pidsReserve : Nat

/-- The required gauges, in the order in which they are read. -/
def requiredGauges (gauges : Readings) : Except Halt Gauges := do
  let integer (name reason : String) :=
    require (finiteInteger (gauges.read name)) ("vm_admission_unmeasured:" ++ reason)
  let number (name reason : String) :=
    require (finiteNumber (gauges.read name)) ("vm_admission_unmeasured:" ++ reason)
  let pidsCurrent ← integer "pids_current" "vm_pids"
  let memoryAnonBytes ← integer "memory_anon_bytes" "vm_memory"
  let memoryPsiAvg60 ← number "memory_psi_avg60" "vm_memory_psi"
  let cpuPsiAvg60 ← number "cpu_psi_avg60" "vm_cpu_psi"
  let diskFreeBytes ← integer "disk_free_bytes" "vm_disk"
  let diskFloorBytes ← integer "disk_floor_bytes" "vm_disk"
  let memoryHeadroomPct ← integer "memory_headroom_pct" "vm_memory"
  let memoryPsiMax ← number "memory_psi_max" "vm_memory_psi"
  let cpuPsiMax ← number "cpu_psi_max" "vm_cpu_psi"
  let pidsReserve ← integer "pids_reserve" "vm_pids"
  return { pidsCurrent, memoryAnonBytes, memoryPsiAvg60, cpuPsiAvg60, diskFreeBytes,
           diskFloorBytes, memoryHeadroomPct, memoryPsiMax, cpuPsiMax, pidsReserve }

/-- What a candidate takes. -/
structure Costs where
  pids : Nat
  anonBytes : Nat
  diskBytes : Nat

/-- The measured cost of a candidate. -/
def requiredCosts (cost : Readings) : Except Halt Costs := do
  let pids ← require (finiteInteger (cost.read "pids")) "vm_admission_unmeasured:vm_pids_cost"
  let anonBytes ←
    require (finiteInteger (cost.read "anon_bytes")) "vm_admission_unmeasured:vm_memory_cost"
  let diskBytes ←
    require (finiteInteger (cost.read "disk_bytes")) "vm_admission_unmeasured:vm_disk_cost"
  return { pids, anonBytes, diskBytes }

/-- `memory_max * memory_headroom_pct / 100`, a float. -/
def memoryLimit (memoryMax headroomPct : Nat) : Except Halt ℚ :=
  match binary64 ((memoryMax * headroomPct : Nat) / 100) with
  | some limit => .ok limit
  | none => .error .overflow

/-- The check of the processes. -/
def admitPids (gauges : Gauges) (costs : Costs) (limit : Limit) : Except Halt Unit :=
  match limit with
  | .max => .ok ()
  | .atMost n => refuseIf (n < gauges.pidsCurrent + costs.pids + gauges.pidsReserve) "vm_pids"

/-- The check of the memory. -/
def admitMemory (gauges : Gauges) (costs : Costs) (limit : Limit) : Except Halt Unit :=
  match limit with
  | .max => .ok ()
  | .atMost n => do
    let limit ← memoryLimit n gauges.memoryHeadroomPct
    refuseIf (limit < (gauges.memoryAnonBytes + costs.anonBytes : Nat)) "vm_memory"

/-- `WORKBAY_REMOTE_GATE_DISK_MAX_PCT`, which may be unset or malformed. -/
abbrev DiskMaxPct := Option (Option Nat)

/-- The check of the projected disk usage. -/
def admitDiskPct (diskMaxPct : DiskMaxPct) (gauges : Readings) (projected : Nat) :
    Except Halt Unit :=
  match diskMaxPct with
  | none => .ok ()
  | some diskMax => do
    let reason := "vm_admission_unmeasured:vm_disk_pct"
    let used ← require (finiteInteger (gauges.read "disk_used_bytes")) reason
    let available ← require (finiteInteger (gauges.read "disk_available_bytes")) reason
    let projection ← require (projectedDiskPct used available projected) reason
    let diskMax ← require diskMax reason
    refuseIf (diskMax < projection) "vm_disk_projected_pct"

/-- The phases of an admission. -/
structure Phases where
  budget : Option PhaseVector := none
  held : Option PhaseVector := none
  candidate : Option PhaseVector := none

/-- `admit` -/
def admitGauges (diskMaxPct : DiskMaxPct) (gauges : Readings) (pending : Pending) (cost : Readings)
    (phases : Phases := {}) : Except Halt Unit := do
  let values ← requiredGauges gauges
  let pidsMax ← require (limitValue gauges "pids_max") "vm_admission_unmeasured:vm_pids"
  let memoryMax ←
    require (limitValue gauges "memory_max_bytes") "vm_admission_unmeasured:vm_memory"
  let costs ← requiredCosts cost
  let pendingDisk ←
    require (pendingDiskCost costs.diskBytes pending) "vm_admission_unmeasured:vm_pending"
  refuseIf (¬ (1 ≤ values.memoryHeadroomPct ∧ values.memoryHeadroomPct ≤ 100))
    "vm_admission_unmeasured:vm_memory_headroom"
  admitPids values costs pidsMax
  admitMemory values costs memoryMax
  refuseIf (values.memoryPsiMax < values.memoryPsiAvg60) "vm_memory_psi"
  refuseIf (values.cpuPsiMax < values.cpuPsiAvg60) "vm_cpu_psi"
  let projected := pendingDisk + costs.diskBytes
  refuseIf (values.diskFreeBytes < projected + values.diskFloorBytes) "vm_disk"
  admitDiskPct diskMaxPct gauges projected
  if phases.budget.isSome || phases.held.isSome || phases.candidate.isSome then
    admitPhase phases.budget phases.held phases.candidate
  else .ok ()

end Workbay.Queue
