import Workbay.Effects.System
import Workbay.Queue.Admission

/-!
# The lane queue: one burst

A pass visits the queued rows of a snapshot in order. What it has launched is charged until a
sample shows it: every later row is judged against a fresh reading, charged with the reservations
of the launches before it less what their samples show.
-/

namespace Workbay.Queue

open Effects

/-! ## Resources -/

/-- The resources of `BURST_RESERVED_GAUGES`. -/
inductive Resource where
  | pids
  | anonBytes
  | diskBytes
deriving DecidableEq

namespace Resource

/-- The key of a cost or a sample. -/
def key : Resource → String
  | pids => "pids"
  | anonBytes => "anon_bytes"
  | diskBytes => "disk_bytes"

/-- The gauge of a resource. -/
def gauge : Resource → String
  | pids => "pids_current"
  | anonBytes => "memory_anon_bytes"
  | diskBytes => "disk_free_bytes"

end Resource

/-- What is taken of every resource. -/
abbrev Amounts := Resource → Nat

/-! ## Samples and credits -/

/-- `value.get(key) == value'` -/
def Reading.equals : Reading → Reading → Bool
  | .none, .none => true
  | .str s, .str t => s = t
  | .bool a, .bool b => a = b
  | .num a, .num b => a.value = b.value
  | .bool a, .num b | .num b, .bool a => b.value = (Number.int (if a then 1 else 0)).value
  | _, _ => false

/-- What a sample has to be about. -/
structure Identity where
  jobId : String
  unit : Reading
  launchNotBefore : Int

/-- A launch of this pass. -/
structure Accepted where
  jobDir : String
  identity : Identity
  diskBefore : Option Nat
  identityValid : Bool
  cost : Amounts

/-- `_sample_identity` -/
def sampleIdentity (sample : Readings) (identity : Identity) (began ended : Int) : Bool :=
  (sample.read "job_id").equals (.str identity.jobId)
    && (sample.read "unit").equals identity.unit
    && (sample.read "launch_not_before_ns").equals (.num (.int identity.launchNotBefore))
    && match finiteInteger (sample.read "observed_at_ns") with
      | some observed => decide (began ≤ observed) && decide ((observed : Int) ≤ ended)
      | none => false

/-- `_disk_sample` -/
def diskSample (sample : Readings) (jobDir : String) : Option Nat :=
  if sample.read "disk_scope" = .str jobDir then finiteInteger (sample.read "disk_usage_bytes")
  else none

/-- The states of a credit. -/
inductive CreditStatus where
  | unmeasuredAfterLaunch
  | unknownIdentityOrStaleSample
  | identityBound
  | unknownSharedUnit
  | unknownAggregate
  | contradictoryAggregate
deriving DecidableEq

/-- What is known of one resource. -/
inductive CreditField where
  | absent
  | unknownReserved
  | measured
  | unknownAggregateReserved
  | contradictoryAggregateReserved
deriving DecidableEq

/-- The credit of a launch. -/
structure Attribution where
  credit : Amounts := fun _ => 0
  status : CreditStatus
  fields : Resource → CreditField := fun _ => .absent

/-- What a sample shows of a resource. -/
def sampleValue (launch : Accepted) (sample : Readings) : Resource → Option Nat
  | .diskBytes =>
    match launch.diskBefore, diskSample sample launch.jobDir with
    | some before, some after => some (after - before)
    | _, _ => none
  | r => finiteInteger (sample.read r.key)

/-- `_job_credit` -/
def jobCredit (launch : Accepted) (sample : Option Readings) (began ended : Int) : Attribution :=
  match sample with
  | none => { status := .unknownIdentityOrStaleSample }
  | some sample =>
    if launch.identityValid && sampleIdentity sample launch.identity began ended then
      { credit r := ((sampleValue launch sample r).map (min (launch.cost r))).getD 0
        status := .identityBound
        fields r := if (sampleValue launch sample r).isSome then .measured else .unknownReserved }
    else { status := .unknownIdentityOrStaleSample }

variable (accepted : List Accepted)

/-- Whether no other launch runs in the unit of this one. -/
def ownsUnit (launch : Accepted) : Bool :=
  (accepted.filter fun other => other.identity.unit.equals launch.identity.unit).length == 1

/-- The credit of a launch among the others. -/
def ownCredit (began ended : Int)
    (entry : Accepted × Option Readings) : Attribution :=
  let attribution := jobCredit entry.1 entry.2 began ended
  if ownsUnit accepted entry.1 then attribution
  else { attribution with credit := fun _ => 0, status := .unknownSharedUnit }

/-- Whether a launch has a measured amount of a resource. -/
def Attribution.isMeasured (a : Attribution) (r : Resource) : Bool :=
  decide (a.status ≠ .unknownIdentityOrStaleSample) && decide (a.status ≠ .unknownSharedUnit)
    && decide (a.fields r = .measured)

/-- The measured amounts of a resource in all. -/
def scopedTotal (r : Resource) (entries : List (Option Readings × Attribution)) : Nat :=
  (entries.map fun (sample, a) =>
    if a.isMeasured r then (sample.bind fun s => finiteInteger (s.read r.key)).getD 0 else 0).sum

/-- The credits of a resource are withdrawn. -/
def Attribution.withdraw (a : Attribution) (r : Resource) (known : Bool) : Attribution :=
  if a.isMeasured r then
    { credit := Function.update a.credit r 0
      status := if known then .contradictoryAggregate else .unknownAggregate
      fields := Function.update a.fields r
        (if known then .contradictoryAggregateReserved else .unknownAggregateReserved) }
  else a

/-- The amounts measured of a resource are within its gauge, or there is no credit for it. -/
def checkTotal (measure : Readings) (samples : List (Option Readings)) (r : Resource)
    (attributions : List Attribution) : List Attribution :=
  match finiteInteger (measure.read r.gauge) with
  | some current =>
    if scopedTotal r (samples.zip attributions) ≤ current then attributions
    else attributions.map (·.withdraw r true)
  | none => attributions.map (·.withdraw r false)

/-- `_consistent_job_credits` -/
def consistentJobCredits (samples : List (Option Readings))
    (measure : Readings) (began ended : Int) : List Attribution :=
  checkTotal measure samples .anonBytes <| checkTotal measure samples .pids <|
    (accepted.zip samples).map (ownCredit accepted began ended)

/-! ## The operations of a pass -/

/-- What a pass knows when it starts a job: its last reading, its launches so far, the credits
that the reading was charged with less, and the candidate's cost. -/
structure Admission where
  measure : Readings
  accepted : List Accepted
  credits : List Amounts
  cost : Readings

/-- The current state of a queued job. -/
structure JobState where
  unit : Reading

/-- What `_current_queued_eligibility` finds. -/
inductive Eligibility where
  | queued (state : JobState)
  | gone
  | refused (reason : String)

/-- What the holders of the locks take. -/
structure HolderUsage where
  pids : Nat := 0
  anonBytes : Nat := 0

/-- The operations of a pass. -/
inductive DrainOp where
  /-- The stop file exists. -/
  | stopRequested
  /-- `monotonic() >= deadline` -/
  | pastDeadline
  /-- `time.monotonic_ns()` -/
  | monotonicNs
  /-- `_read_attribution` -/
  | readAttribution (identity : Identity) (beforeLaunch : Bool) (deadline : Int)
  /-- `gauge_reader` -/
  | readGauges
  /-- `_current_queued_eligibility` under the lock of the job, or why the lock is not free -/
  | lockedEligibility (job : String)
  /-- `_current_queued_eligibility` -/
  | currentEligibility (job : String)
  /-- `_eligible_reservation_row` -/
  | eligibleReservationRow (job : String)
  /-- The jobs of `_job_rows` that are queued. -/
  | queuedJobs
  /-- `_default_measured_cost` -/
  | defaultMeasuredCost (job : String)
  /-- `_host_admission` -/
  | hostAdmission (job : String)
  /-- `_start` up to the locks of the queued jobs -/
  | lockPending (job : String) (dirs : List String)
  /-- The rest of `_start`, which runs the start script. -/
  | launch (job : String) (admission : Admission)
  /-- `_load_job_state` -/
  | loadJobState (job : String)
  /-- `_charge_host_launch` -/
  | chargeHostLaunch (job : String)

/-- The answers to the operations; `gauge_reader` may raise an exception of some type. -/
abbrev DrainOp.Answer : DrainOp → Type
  | .stopRequested | .pastDeadline | .eligibleReservationRow _ => Bool
  | .monotonicNs => Int
  | .readAttribution .. => Option Readings
  | .readGauges => Except String Readings
  | .lockedEligibility _ => Except String Eligibility
  | .currentEligibility _ => Eligibility
  | .queuedJobs => List String
  | .defaultMeasuredCost _ => Readings
  | .hostAdmission _ => Option String
  | .lockPending .. => Except String HolderUsage
  | .launch .. => Bool × Option String
  | .loadJobState _ => Option JobState
  | .chargeHostLaunch _ => Unit

/-- An integer is too large for a float. -/
inductive DrainError where
  | overflow
deriving DecidableEq

/-- The programs of a pass. -/
abbrev DrainM := Prog DrainOp DrainOp.Answer DrainError

/-- The settings of a queue. -/
structure Settings where
  jobsRoot : String
  /-- `burst_budget_s > 0` -/
  budgeted : Bool
  measuredCost : Option Readings
  diskMaxPct : DiskMaxPct

/-- `ATTRIBUTION_BUDGET_NS` -/
def attributionBudgetNs : Int := 500000000

variable (cfg : Settings)

/-- The directory of a job. -/
def Settings.jobDir (job : String) : String := cfg.jobsRoot ++ "/" ++ job

/-! ## The variables of a pass -/

/-- The variables of a pass; `rest` are the rows that are not visited yet. -/
structure Burst where
  rest : List String
  started : List String := []
  reserved : Amounts := fun _ => 0
  unobserved : Resource → Int := fun _ => 0
  costs : Dict String Readings := []
  accepted : List Accepted := []
  attribution : Dict String Attribution := []
  credits : List Amounts := []
  measure : Readings
  decisionMeasure : Readings
  remeasure : Bool := false

/-- `BurstOutcome`, with its evidence -/
structure BurstOutcome where
  started : List String
  refusal : Option String
  measure : Readings
  reserved : Amounts
  unobserved : Resource → Int
  attribution : Dict String Attribution

variable (b : Burst)

/-- The end of a pass. -/
def Burst.outcome (refusal : Option String) : BurstOutcome where
  started := b.started
  refusal := refusal
  measure := b.measure
  reserved := b.reserved
  unobserved := b.unobserved
  attribution := b.attribution

/-- A gauge is raised by some amount, unless it is not measured. -/
def charge (readings : Readings) (gauge : String) (amount : Int) : Readings :=
  match finiteInteger (readings.read gauge) with
  | some current => readings.set gauge (.num (.int (current + amount)))
  | none => readings

/-! ## A fresh reading -/

/-- The samples of the launches, until the time for them is over. -/
def readSamples (deadline : Int) : List Accepted → DrainM (List (Option Readings))
  | [] => .ret []
  | launch :: launches =>
    .call .monotonicNs fun now =>
      if now < deadline then
        .call (.readAttribution launch.identity false deadline) fun sample =>
          readSamples deadline launches >>= fun samples => .ret (sample :: samples)
      else readSamples deadline launches >>= fun samples => .ret (none :: samples)

/-- The reading is charged with what is not observed yet. -/
def Burst.charged (samples : List (Option Readings)) (began ended : Int)
    (measure : Readings) : Burst :=
  let attributions := consistentJobCredits b.accepted samples measure began ended
  let credits := attributions.map (·.credit)
  let unobserved : Resource → Int := fun r => b.reserved r - (credits.map (· r)).sum
  { b with
    remeasure := false
    measure := measure
    credits := credits
    unobserved := unobserved
    attribution := (b.accepted.zip attributions).foldl
      (fun d entry => d.set entry.1.identity.jobId entry.2) b.attribution
    decisionMeasure := charge (charge measure Resource.pids.gauge (unobserved .pids))
      Resource.anonBytes.gauge (unobserved .anonBytes) }

/-- The variables of a pass, and the refusal that ends it. -/
abbrev Visited := Burst × Option String

/-- A fresh reading, with the samples of the launches before it. -/
def freshReading : DrainM Visited :=
  .call .monotonicNs fun began =>
    readSamples (began + attributionBudgetNs) b.accepted >>= fun samples =>
      .call .monotonicNs fun ended => .call .readGauges fun
        | .error exception =>
          .ret ({ b with measure := [] }, some ("vm_admission_unmeasured:vm_gauges:" ++ exception))
        | .ok measure => .ret (b.charged samples began ended measure, none)

/-! ## The preparation of an admission -/

/-- Whether a deadline that counts is over. -/
def overdue (counts : Bool) : DrainM Bool :=
  if counts then Prog.perform (E := DrainOp) .pastDeadline else .ret false

/-- `_cost_for_job` -/
def costForJob (job : String) : DrainM Readings :=
  match cfg.measuredCost with
  | some cost => .ret cost
  | none => Prog.perform (E := DrainOp) (.defaultMeasuredCost job)

/-- `cost`, with the costs that are known so far; `none` is a `CostProbeDeadline`. -/
def cost (counts : Bool) (costs : Dict String Readings) (job : String) :
    DrainM (Option (Readings × Dict String Readings)) :=
  match costs.get? job with
  | some known => .ret (some (known, costs))
  | none => overdue counts >>= fun
    | true => .ret none
    | false => costForJob cfg job >>= fun measured => overdue counts >>= fun
      | true => .ret none
      | false => .ret (some (measured, costs.set job measured))

/-- The costs of the disk of several jobs. -/
def diskCosts (cfg : Settings) (counts : Bool) :
    Dict String Readings → List String → DrainM (Option (List Reading × Dict String Readings))
  | costs, [] => .ret (some ([], costs))
  | costs, job :: jobs => cost cfg counts costs job >>= fun
    | none => .ret none
    | some (measured, costs) => diskCosts cfg counts costs jobs >>= fun
      | none => .ret none
      | some (disk, costs) => .ret (some (measured.read "disk_bytes" :: disk, costs))

/-- Whether a row keeps its reservation. -/
def eligible (job : String) : DrainM Bool :=
  match cfg.measuredCost with
  | some _ => Prog.perform (E := DrainOp) (.eligibleReservationRow job)
  | none => .call (.currentEligibility job) fun
    | .gone => .ret false
    | _ => .ret true

/-- The rows that keep their reservation. -/
def eligibleRows (cfg : Settings) : List String → DrainM (List String)
  | [] => .ret []
  | job :: jobs => eligible cfg job >>= fun keep => eligibleRows cfg jobs >>= fun rest =>
    .ret (if keep then job :: rest else rest)

/-- The queued jobs that are not among the known ones, or why one is refused. -/
def newlyQueued (known : List String) : List String → DrainM (Except String (List String))
  | [] => .ret (.ok [])
  | job :: jobs =>
    if job ∈ known then newlyQueued known jobs
    else .call (.currentEligibility job) fun
      | .refused reason => .ret (.error reason)
      | .gone => newlyQueued known jobs
      | .queued _ => newlyQueued known jobs >>= fun
        | .ok rest => .ret (.ok (job :: rest))
        | .error reason => .ret (.error reason)

/-- The jobs whose disk is reserved: the rows that are left and, under publication, every other
queued job. -/
def pendingDirs (job : String) (rest : List String) :
    DrainM (Except String (List String)) :=
  match cfg.measuredCost with
  | some _ => .ret (.ok rest)
  | none => .call .queuedJobs fun jobs => newlyQueued (job :: rest) jobs >>= fun
    | .ok others => .ret (.ok (rest ++ others))
    | .error reason => .ret (.error reason)

/-- What is prepared for a launch. -/
structure Candidate where
  cost : Readings
  identity : Identity
  diskBefore : Option Nat

/-- The usage of the disk before the launch, if a sample shows it. -/
def diskBaseline (identity : Identity) : DrainM (Option Nat) :=
  .call (.readAttribution identity true (identity.launchNotBefore + attributionBudgetNs)) fun
    | none => .ret none
    | some sample => .call .monotonicNs fun now =>
      if sampleIdentity sample identity identity.launchNotBefore now then
        .ret (diskSample sample (cfg.jobDir identity.jobId))
      else .ret none

/-- `vm_queue_burst_budget_exhausted` -/
def budgetExhausted : String := "vm_queue_burst_budget_exhausted"

/-- `vm_queue_stop_requested` -/
def stopped : String := "vm_queue_stop_requested"

variable (later : Bool)

/-- The stop file, once the first row has been visited. -/
def stopRequested : DrainM Bool :=
  if later then Prog.perform (E := DrainOp) .stopRequested else .ret false

/-- `prepare` once the candidate is admitted: its identity and its disk usage before the launch. -/
def prepareLaunch (b : Burst) (job : String) (cost : Readings)
    (state : JobState) : DrainM (Except String (Burst × Candidate)) :=
  .call (.hostAdmission job) fun
    | some refusal => .ret (.error refusal)
    | none => .call .monotonicNs fun launchNotBefore =>
      let identity : Identity := ⟨job, state.unit, launchNotBefore⟩
      diskBaseline cfg identity >>= fun diskBefore => stopRequested later >>= fun
        | true => .ret (.error stopped)
        | false => overdue (later || cfg.budgeted) >>= fun
          | true => .ret (.error budgetExhausted)
          | false => .ret (.ok (b, ⟨cost, identity, diskBefore⟩))

/-- The reading that a candidate is judged against: the holders of the locks are charged too. -/
def Burst.candidateMeasure (holder : HolderUsage) : Readings :=
  charge (charge b.decisionMeasure Resource.pids.gauge holder.pids)
    Resource.anonBytes.gauge holder.anonBytes

/-- `admit` in a pass: the launches that are not observed yet and the jobs that wait join the
disk reservations. -/
def admitCandidate (holder : HolderUsage) (pending : List Reading)
    (cost : Readings) : Except Halt Unit :=
  admitGauges cfg.diskMaxPct (b.candidateMeasure holder)
    (.entries (.num (.int (b.unobserved .diskBytes)) :: pending)) cost

/-- `prepare` -/
def prepare (b : Burst) (job : String) (holder : HolderUsage)
    (state : JobState) : DrainM (Except String (Burst × Candidate)) :=
  let counts := later || cfg.budgeted
  eligibleRows cfg b.rest >>= fun rest =>
    let known := if cfg.measuredCost.isSome then b.costs else []
    cost cfg counts known job >>= fun
      | none => .ret (.error budgetExhausted)
      | some (measured, costs) => pendingDirs cfg job rest >>= fun
        | .error reason => .ret (.error reason)
        | .ok dirs => diskCosts cfg counts costs dirs >>= fun
          | none => .ret (.error budgetExhausted)
          | some (pending, costs) =>
            let b := { b with rest := rest, costs := costs }
            match admitCandidate cfg b holder pending measured with
            | .error (.refused reason) => .ret (.error reason)
            | .error .overflow => .raise .overflow
            | .ok () => prepareLaunch cfg later b job measured state

/-! ## The pass -/

/-- A launch is charged. -/
def Burst.launched (cfg : Settings) (job : String) (candidate : Candidate)
    (latest : Option JobState) : Burst :=
  let cost : Amounts := fun r => (finiteInteger (candidate.cost.read r.key)).getD 0
  { b with
    started := b.started ++ [job]
    remeasure := true
    accepted := b.accepted ++ [{
      jobDir := cfg.jobDir job
      identity := candidate.identity
      diskBefore := candidate.diskBefore
      identityValid := match latest with
        | some state => state.unit.equals candidate.identity.unit
        | none => false
      cost := cost }]
    attribution := b.attribution.set job { status := .unmeasuredAfterLaunch }
    reserved := fun r => b.reserved r + cost r
    unobserved := fun r => b.unobserved r + cost r }

/-- A candidate that is prepared is started. -/
def startPrepared (job : String) :
    Except String (Burst × Candidate) → DrainM Visited
  | .error reason => .ret (b, some reason)
  | .ok (b, candidate) =>
    .call (.launch job ⟨b.measure, b.accepted, b.credits, candidate.cost⟩) fun
      | (_, some refusal) => .ret (b, some refusal)
      | (false, none) => .ret (b, none)
      | (true, none) => .call (.chargeHostLaunch job) fun _ =>
        .call (.loadJobState job) fun latest => .ret (b.launched cfg job candidate latest, none)

/-- A row that is queued: it is prepared and started. Without explicit costs it is prepared under
the locks of all queued jobs. -/
def visitQueued (b : Burst) (job : String) (state : JobState) :
    DrainM Visited :=
  match cfg.measuredCost with
  | some _ => prepare cfg later b job {} state >>= startPrepared cfg b job
  | none => .call (.lockPending job b.rest) fun
    | .error reason => .ret (b, some reason)
    | .ok holder => .call (.currentEligibility job) fun
      | .refused reason => .ret (b, some reason)
      | .gone => .ret (b, none)
      | .queued latest => prepare cfg later b job holder latest >>= startPrepared cfg b job

/-- The rows after the first one honour the stop file and the budget. -/
def mayGoOn : DrainM (Option String) :=
  if later then
    .call .stopRequested fun
      | true => .ret (some stopped)
      | false => .call .pastDeadline fun
        | true => .ret (some budgetExhausted)
        | false => .ret none
  else .ret none

/-- The row is visited once the reading is fresh. -/
def visitRow (job : String) : Visited → DrainM Visited
  | (b, some refusal) => .ret (b, some refusal)
  | (b, none) => .call (.lockedEligibility job) fun
    | .error reason => .ret (b, some reason)
    | .ok (.refused reason) => .ret (b, some reason)
    | .ok .gone => .ret (b, none)
    | .ok (.queued state) => visitQueued cfg later b job state

/-- One row is visited. -/
def visit (b : Burst) (job : String) : DrainM Visited :=
  mayGoOn later >>= fun
    | some refusal => .ret (b, some refusal)
    | none => (if b.remeasure then freshReading b else .ret (b, none)) >>= visitRow cfg later job

/-- The rows that are left. No row is visited twice, so that the size of the snapshot bounds the
number of visits. -/
def drainRows (cfg : Settings) : Nat → Bool → Burst → DrainM BurstOutcome
  | 0, _, b => .ret (b.outcome none)
  | fuel + 1, later, b =>
    match b.rest with
    | [] => .ret (b.outcome none)
    | job :: rest => visit cfg later { b with rest := rest } job >>= fun
      | (b, some refusal) => .ret (b.outcome (some refusal))
      | (b, none) => drainRows cfg fuel true b

/-- `_drain` -/
def drain (queuedRows : List String) (baseline : Readings) :
    DrainM BurstOutcome :=
  drainRows cfg queuedRows.length false
    { rest := queuedRows, measure := baseline, decisionMeasure := baseline }

end Workbay.Queue
