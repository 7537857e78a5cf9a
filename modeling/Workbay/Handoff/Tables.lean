import Mathlib.Data.List.Basic
import Workbay.Data.Text
import Workbay.Data.Check

/-!
# The tables of the handoff store

Rows of the tables that the writers of a task change, and the small statements on them: the lookup
of a task, and the claim of an event id. The claims make a write happen once: an id is bound to the
row of the write that first carried it.
-/

namespace Workbay.Handoff

/-- Why a writer raises. -/
inductive Raised where
  | ambiguousTaskRef (taskRef : String) (refs : List String)
  | outside (name : String)
  | lostFence
  | hold (code : String)
  | integrityError
deriving DecidableEq

/-! ## Rows -/

/-- `HandoffStatus` -/
inductive TaskStatus where
  | inProgress
  | blocked
  | review
  | done
deriving DecidableEq

/-- The status that a text names. -/
def TaskStatus.ofText? (text : String) : Option TaskStatus :=
  if text = "in_progress" then some .inProgress
  else if text = "blocked" then some .blocked
  else if text = "review" then some .review
  else if text = "done" then some .done
  else none

/-- A row of `handoff_state`. -/
structure TaskRow where
  taskRef : String
  objective : String
  focus : Option String
  status : TaskStatus
  targetBranch : Option String
  targetWorktreePath : Option String
  taskPlanPath : Option String
  lastObservedIntegrationSha : Option String
  revision : Int
  updatedAt : String
  updatedBy : Option String
  updatedBranch : Option String
  updatedCommitSha : Option String
deriving DecidableEq

/-- A row of `task_archives`. -/
structure ArchiveRow where
  taskRef : String
  archivedAt : String
  archivedBy : Option String
  archivedBranch : Option String
  archivedCommitSha : Option String
  notes : Option String
  snapshotJson : String
deriving DecidableEq

/-- A row of `decisions`; the list of changed files is kept as a list. -/
structure DecisionRow where
  id : Nat
  taskRef : String
  laneId : Option String
  session : String
  decision : String
  rationale : Option String
  agent : Option String
  harness : Option String
  model : Option String
  modelLabel : Option String
  reasoningLevel : Option String
  inputTokens : Option Int
  outputTokens : Option Int
  totalTokens : Option Int
  changedFiles : List String
  sliceNumber : Option Int
  branch : Option String
  commitSha : Option String
  decisionOrigin : Option String
  createdAt : String
deriving DecidableEq

/-- A row of `verified_tests`. -/
structure TestRow where
  id : Nat
  taskRef : String
  laneId : Option String
  command : String
  passed : Bool
  exitCode : Option Int
  result : Option String
  session : String
  agent : Option String
  branch : Option String
  commitSha : Option String
  verifiedAt : String
deriving DecidableEq

/-- A row of `test_traces`. -/
structure TraceRow where
  verifiedTestId : Nat
  taskRef : String
  traceOrder : Nat
  trace : String
  createdAt : String
deriving DecidableEq

/-- A row of `projection_event_dedupe`. -/
structure ClaimRow where
  eventId : String
  toolName : String
  targetTable : String
  targetId : Option Nat
  taskRef : Option String
  createdAt : String
deriving DecidableEq

/-- The next value of an `AUTOINCREMENT` column. -/
def nextId (ids : List Nat) : Nat := ids.foldr max 0 + 1

/-! ## Texts -/

/-- `lower(text)` of the database, which knows ASCII letters only. -/
def lower (text : String) : String := text.map Char.toLower

/-- `_normalize_optional_text` -/
def normalizeOptionalText (value : Option String) : Option String :=
  (value.map Text.strip).filter (· ≠ "")

/-! ## Tasks -/

/-- `_get_handoff_row_for_task` -/
def getHandoffRowForTask (tasks : List TaskRow) (taskRef : String) :
    Except Raised (Option TaskRow) :=
  match tasks.find? (·.taskRef = taskRef) with
  | some row => .ok (some row)
  | none =>
    match tasks.filter (fun row => lower row.taskRef = lower taskRef) with
    | [] => .ok none
    | [row] => .ok (some row)
    | rows => .error (.ambiguousTaskRef taskRef (rows.map TaskRow.taskRef))

/-- `_current_task_revision` -/
def currentTaskRevision (tasks : List TaskRow) (taskRef : String) : Option Int :=
  (tasks.find? (·.taskRef = taskRef)).map TaskRow.revision

/-! ## Event ids -/

/-- `normalize_event_id` -/
def normalizeEventId (eventId : Option String) : Option String :=
  (eventId.map Text.strip).filter (· ≠ "")

variable (claims : List ClaimRow)

/-- `fetch_projection_event` -/
def fetchProjectionEvent (eventId : Option String) : Option ClaimRow :=
  (normalizeEventId eventId).bind fun id => claims.find? (·.eventId = id)

/-- `claim_projection_event`: the row that is there already, and the rows -/
def claimProjectionEvent (eventId : Option String)
    (toolName targetTable : String) (taskRef : Option String) (now : String) :
    Option ClaimRow × List ClaimRow :=
  match normalizeEventId eventId with
  | none => (none, claims)
  | some id =>
    match claims.find? (·.eventId = id) with
    | some existing => (some existing, claims)
    | none => (none, claims ++ [⟨id, toolName, targetTable, none, taskRef, now⟩])

/-- `complete_projection_event` -/
def completeProjectionEvent (eventId : Option String)
    (targetTable : String) (targetId : Option Nat) (taskRef : Option String) : List ClaimRow :=
  match normalizeEventId eventId with
  | none => claims
  | some id => claims.map fun c =>
    if c.eventId = id then
      { c with targetTable, targetId, taskRef := taskRef.or c.taskRef }
    else c

/-- `clear_projection_event_claim` -/
def clearProjectionEventClaim (eventId : Option String) : List ClaimRow :=
  match normalizeEventId eventId with
  | none => claims
  | some id => claims.filter (·.eventId ≠ id)

end Workbay.Handoff

/-!
## The lifecycle producer

A change of a task is staged together with an event of the worktree that it was made in, and with a
snapshot of the row as evidence. Where the worktree is not known, the row is changed alone. The
operation of an event is the digest of the task and the event id of the write; here it is these two.
-/

namespace Workbay.Handoff

/-- A worktree, named by its repository and its path. -/
structure Resource where
  repository : String
  identity : String
deriving DecidableEq

/-- `GitSource` -/
structure GitSource where
  revision : String
  tree : String
deriving DecidableEq

/-- `ProducerBinding` -/
structure ProducerBinding where
  resource : Option Resource := none
  source : Option GitSource := none
  host : String := ""
  reason : Option String := none
deriving DecidableEq

/-- What a handoff write was digested from: its task, and its event id or a fresh one. -/
structure Operation where
  taskRef : String
  token : String
deriving DecidableEq

/-- The snapshot of a row that a write intends. -/
structure Snapshot where
  taskRef : String
  objective : String
  focus : Option String
  status : TaskStatus
  targetBranch : Option String
  targetWorktreePath : Option String
  taskPlanPath : Option String
  revision : Int
  updatedBy : Option String
  updatedBranch : Option String
  updatedCommitSha : Option String
deriving DecidableEq

/-- A row of `lifecycle_resource_producer_evidence`. -/
structure EvidenceRow where
  ref : Operation
  snapshot : Snapshot
  producerHost : String
deriving DecidableEq

/-- `Registration`; policy and kind are always the same. -/
structure Registration where
  resource : Resource
  source : GitSource
  evidence : EvidenceRow
  taskRef : String
  laneId : Option String
deriving DecidableEq

/-- `LifecycleEvent` of a registration; its id is the digest of the resource and the operation. -/
structure LifecycleEvent where
  registration : Registration
  operation : Operation
  committedAt : String
  syntheticTag : Option String
deriving DecidableEq

/-- A row of `resource_events`. -/
structure ResourceEventRow where
  id : Nat
  event : LifecycleEvent
deriving DecidableEq

/-- The tables of the producer. -/
structure ResourceTables where
  events : List ResourceEventRow := []
  latest : List (Resource × Nat) := []
  evidence : List EvidenceRow := []
deriving DecidableEq

/-- The tables of the store. -/
structure Store where
  tasks : List TaskRow := []
  archives : List ArchiveRow := []
  decisions : List DecisionRow := []
  tests : List TestRow := []
  traces : List TraceRow := []
  claims : List ClaimRow := []
  resources : ResourceTables := {}
deriving DecidableEq

/-- What the producer reports. -/
inductive Lifecycle where
  | unknown (reason : String)
  | observed (sequence : Nat) (inserted : Bool) (snapshot : Option Snapshot)
deriving DecidableEq

/-- The event id of the rows of `resource_events`. -/
def LifecycleEvent.key (e : LifecycleEvent) : Resource × Operation :=
  (e.registration.resource, e.operation)

/-- `event_id.strip()`, or else a fresh id -/
def operationToken (eventId : Option String) (fresh : String) : String :=
  match (eventId.filter (· ≠ "")).map Text.strip with
  | some token => if token = "" then fresh else token
  | none => fresh

/-- `replay_receipt` -/
def replayReceipt (r : ResourceTables) (taskRef : String) (eventId : Option String) : Lifecycle :=
  match eventId.filter (· ≠ "") with
  | none => .unknown "original_resource_event_unavailable"
  | some id =>
    match r.events.find? (fun row => row.event.operation = ⟨taskRef, Text.strip id⟩
        ∧ row.event.registration.taskRef = taskRef) with
    | none => .unknown "original_resource_event_unavailable"
    | some row => .observed row.id false
      ((r.evidence.find? (·.ref = row.event.operation)).map EvidenceRow.snapshot)

/-- The latest event of a resource is set. -/
def setLatest (latest : List (Resource × Nat)) (resource : Resource) (id : Nat) :
    List (Resource × Nat) :=
  (latest.filter (·.1 ≠ resource)) ++ [(resource, id)]

/-- The part of `record_resource_event` that inserts. -/
def insertResourceEvent (s : Store) (event : LifecycleEvent)
    (change : Store → Except Raised Store) : Except Raised (Store × Nat × Bool) := do
  require (event.syntheticTag = none ∨ ¬ s.resources.events.any fun row =>
      row.event.registration.resource.repository = event.registration.resource.repository
        ∧ row.event.syntheticTag = event.syntheticTag)
    (.hold "synthetic_tag_conflict")
  let id := nextId (s.resources.events.map ResourceEventRow.id)
  let s ← change { s with resources.events := s.resources.events ++ [⟨id, event⟩] }
  return ({ s with
    resources.latest := setLatest s.resources.latest event.registration.resource id }, id, true)

/-- `record_resource_event` -/
def recordResourceEvent (s : Store) (event : LifecycleEvent)
    (change : Store → Except Raised Store) : Except Raised (Store × Nat × Bool) :=
  match s.resources.events.find? (·.event.key = event.key) with
  | some prior =>
    if prior.event ≠ event then .error (.hold "event_payload_conflict")
    else .ok (s, prior.id, false)
  | none => insertResourceEvent s event change

/-- The row is changed and its snapshot kept. -/
def changeWithEvidence (evidence : EvidenceRow) (change : Store → Except Raised Store) (s : Store) :
    Except Raised Store := do
  let s ← change s
  require (¬ s.resources.evidence.any (·.ref = evidence.ref)) .integrityError
  return { s with resources.evidence := s.resources.evidence ++ [evidence] }

/-- What a process knows outside of the tables when it stages a change: the binding of its worktree,
whether the event store is installed, a fresh id, the time, and whether the producer raises. -/
structure ProducerOutside where
  binding : Option ProducerBinding
  storeInstalled : Bool
  fresh : String
  committedAt : String
  failure : Option String
deriving DecidableEq

/-- The reason for which a change is staged without an event. -/
def ProducerOutside.reason (o : ProducerOutside) : Option String :=
  let reason := match o.binding with
    | some b => b.reason
    | none => some "source_not_prepared"
  if o.storeInstalled then reason else reason.or (some "resource_events_package_unavailable")

/-- The event of a change. -/
def stagedEvent (resource : Resource) (source : GitSource) (host : String) (o : ProducerOutside)
    (laneId : Option String) (snapshot : Snapshot) (taskRef : String) (eventId : Option String) :
    LifecycleEvent :=
  let operation : Operation := ⟨taskRef, operationToken eventId o.fresh⟩
  { registration := ⟨resource, source, ⟨operation, snapshot, host⟩, taskRef, laneId⟩
    operation, committedAt := o.committedAt
    syntheticTag := eventId.filter fun id => "synthetic:".isPrefixOf id }

/-- `stage_change` -/
def stageChange (s : Store) (o : ProducerOutside) (taskRef : String) (laneId : Option String)
    (snapshot : Snapshot) (eventId : Option String) (change : Store → Except Raised Store) :
    Except Raised (Store × Lifecycle) :=
  match o.reason, o.binding.bind (·.resource), o.binding.bind (·.source) with
  | none, some resource, some source => do
    require (o.failure = none) (.outside (o.failure.getD ""))
    let event := stagedEvent resource source ((o.binding.map (·.host)).getD "") o laneId snapshot
      taskRef eventId
    let recorded ← recordResourceEvent s event
      (changeWithEvidence event.registration.evidence change)
    return (recorded.1, .observed recorded.2.1 recorded.2.2 none)
  | reason, _, _ => do
    let s ← change s
    return (s, .unknown (reason.getD "source_unavailable"))

end Workbay.Handoff
