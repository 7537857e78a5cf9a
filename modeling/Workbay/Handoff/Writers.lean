import Workbay.Handoff.Tables
import Workbay.Effects.Machine

/-!
# The writers of a task

`set_handoff_state`, `record_decision` and `record_test_result`. Each call is one transaction: what
raises is rolled back. What a call asks of git and of its process is part of its input.
-/

namespace Workbay.Handoff

/-! ## Calls and answers -/

/-- `ResolvedWriteContext` -/
structure WriteContext where
  agent : Option String
  branch : Option String
  commitSha : Option String
  laneId : Option String
  model : Option String
  modelLabel : Option String
  reasoningLevel : Option String
  harness : Option String
deriving DecidableEq

/-- What a call finds outside of the tables: the resolved actor and task, the warnings about its
target, and the time. Each of the first three may raise instead. -/
structure Outside where
  context : Except String WriteContext
  taskRef : Except String String
  warnings : Except String (List String)
  now : String
deriving DecidableEq

/-- The arguments of `set_handoff_state`; `shapeError` is what the checks of the form of the answer
say, and `preparedTarget` the target that the binding of the producer was prepared for. -/
structure StateCall where
  taskRef : String
  objective : Option String := none
  focus : Option String := none
  status : Option String := none
  expectedRevision : Option Int := none
  targetBranch : Option String := none
  targetWorktreePath : Option String := none
  taskPlanPath : Option String := none
  eventId : Option String := none
  shapeError : Option String := none
  preparedTarget : Option String × Option String := (none, none)
  producer : ProducerOutside
deriving DecidableEq

/-- The arguments of `record_decision`. -/
structure DecisionCall where
  session : String
  decision : String
  rationale : Option String := none
  eventId : Option String := none
  inputTokens : Option Int := none
  outputTokens : Option Int := none
  totalTokens : Option Int := none
  changedFiles : Option (List String) := none
  sliceNumber : Option Int := none
  decisionOrigin : Option String := none
  refreshRationaleOnConflict : Bool := false
deriving DecidableEq

/-- The arguments of `record_test_result`. -/
structure TestCall where
  session : String
  command : String
  passed : Bool
  result : Option String := none
  traces : Option (List String) := none
  exitCode : Option Int := none
  eventId : Option String := none
deriving DecidableEq

/-- What a call did to its entity. -/
inductive MutationOperation where
  | insert
  | update
  | noop
deriving DecidableEq

/-- `_envelope` -/
structure Envelope where
  ok : Bool
  taskRef : Option String
  error : Option String := none
  errorCode : Option String := none
  idempotent : Bool := false
  operation : Option MutationOperation := none
  affectedIds : List Nat := []
  taskRevision : Option Int := none
  currentRevision : Option Int := none
  active : Option TaskRow := none
  decision : Option DecisionRow := none
  test : Option TestRow := none
  lifecycle : Option Lifecycle := none
  warnings : List String := []
deriving DecidableEq

/-- The envelope of a refusal. -/
def refused (taskRef : Option String) (error : String) : Envelope :=
  { ok := false, taskRef, error := some error }

/-- What raises outside of the tables. -/
def orRaise {α : Type} : Except String α → Except Raised α
  | .ok a => .ok a
  | .error name => .error (.outside name)

/-! ## `set_handoff_state` -/

/-- `_fence_producer_binding` -/
def fenceProducerBinding (row : Option TaskRow) (c : StateCall) : Option ProducerBinding :=
  let branch := c.targetBranch.or (row.bind TaskRow.targetBranch)
  let worktree := c.targetWorktreePath.or (row.bind TaskRow.targetWorktreePath)
  if normalizeOptionalText c.preparedTarget.1 = normalizeOptionalText branch
      ∧ normalizeOptionalText c.preparedTarget.2 = normalizeOptionalText worktree then
    c.producer.binding
  else some { reason := some "task_source_changed" }

/-- The snapshot of a row. -/
def TaskRow.snapshot (row : TaskRow) : Snapshot where
  taskRef := row.taskRef
  objective := row.objective
  focus := row.focus
  status := row.status
  targetBranch := row.targetBranch
  targetWorktreePath := row.targetWorktreePath
  taskPlanPath := row.taskPlanPath
  revision := row.revision
  updatedBy := row.updatedBy
  updatedBranch := row.updatedBranch
  updatedCommitSha := row.updatedCommitSha

variable (s : Store)

/-- The answer to an event id that is stored already. -/
def replayedState (taskRef : String) (eventId : Option String) (existing : ClaimRow) :
    Except Raised Envelope := do
  let eventTaskRef := (existing.taskRef.filter (· ≠ "")).getD taskRef
  let active ← getHandoffRowForTask s.tasks eventTaskRef
  return { ok := true, taskRef := some eventTaskRef, idempotent := true, operation := some .noop
           taskRevision := active.map TaskRow.revision, active
           lifecycle := some (replayReceipt s.resources eventTaskRef eventId) }

variable (c : StateCall)

/-- The row that a create inserts. -/
def createdRow (ctx : WriteContext) (objective : String) (status : TaskStatus)
    (now : String) : TaskRow where
  taskRef := c.taskRef
  objective := objective
  focus := c.focus
  status := status
  targetBranch := c.targetBranch
  targetWorktreePath := c.targetWorktreePath
  taskPlanPath := normalizeOptionalText c.taskPlanPath
  lastObservedIntegrationSha := none
  revision := 0
  updatedAt := now
  updatedBy := ctx.agent
  updatedBranch := ctx.branch
  updatedCommitSha := ctx.commitSha

/-- `insert_state` -/
def insertState (row : TaskRow) (s : Store) : Except Raised Store := do
  require (¬ s.tasks.any (·.taskRef = row.taskRef)) .integrityError
  return { s with tasks := s.tasks ++ [row] }

/-- The part of a create after the claim of the event id. -/
def stageCreate (c : StateCall) (ctx : WriteContext)
    (binding : Option ProducerBinding) (row : TaskRow) : Except Raised (Store × Envelope) := do
  let staged ← stageChange s { c.producer with binding } c.taskRef ctx.laneId row.snapshot c.eventId
    (insertState row)
  let active ← getHandoffRowForTask staged.1.tasks c.taskRef
  return ({ staged.1 with
      claims := completeProjectionEvent staged.1.claims c.eventId "handoff_state" none
        (some c.taskRef) },
    { ok := true, taskRef := some c.taskRef, operation := some .insert, taskRevision := some 0
      active, lifecycle := some staged.2 })

variable (o : Outside)

/-- The part of `_mutate_handoff_state_with_conn` for a task that has no row. -/
def createState (c : StateCall) (ctx : WriteContext)
    (binding : Option ProducerBinding) (status : TaskStatus) :
    Except Raised (Store × Envelope) :=
  match c.objective with
  | none => .ok (s, refused (some c.taskRef)
      "objective is required when creating a new handoff state.")
  | some objective =>
    if s.archives.any (fun row => lower row.taskRef = lower c.taskRef) then
      .ok (s, { refused (some c.taskRef) ("Task is archived and cannot be recreated by " ++
        "set_handoff_state. Use switch_task to intentionally restore it.") with
        errorCode := some "task_archived" })
    else
      match claimProjectionEvent s.claims c.eventId "set_handoff_state" "handoff_state"
          (some c.taskRef) o.now with
      | (some existing, _) => do
        let envelope ← replayedState s c.taskRef c.eventId existing
        return (s, envelope)
      | (none, claims) =>
        stageCreate { s with claims } c ctx binding (createdRow c ctx objective status o.now)

/-- The fields that a call provides, and whether an update of the field may leave out the revision
that it expects. -/
def StateCall.provided : List (String × Bool) :=
  [("focus", true, c.focus.isSome), ("task_plan_path", true, c.taskPlanPath.isSome),
    ("status", false, c.status.isSome), ("objective", false, c.objective.isSome),
    ("target_branch", false, c.targetBranch.isSome),
    ("target_worktree_path", false, c.targetWorktreePath.isSome)].filterMap
    fun field => if field.2.2 then some (field.1, field.2.1) else none

/-- The revision that an update expects; fields that are safe to merge adopt the current one. -/
def expectedRevision (row : TaskRow) : Option Int :=
  match c.expectedRevision with
  | some revision => some revision
  | none => if c.provided ≠ [] ∧ c.provided.all Prod.snd then some row.revision else none

/-- The row after the `UPDATE`. -/
def updatedRow (ctx : WriteContext) (status : Option TaskStatus) (now : String)
    (row : TaskRow) : TaskRow :=
  { row with
    objective := c.objective.getD row.objective
    focus := c.focus.or row.focus
    status := status.getD row.status
    targetBranch := c.targetBranch.or row.targetBranch
    targetWorktreePath := c.targetWorktreePath.or row.targetWorktreePath
    taskPlanPath := if c.taskPlanPath.isSome then normalizeOptionalText c.taskPlanPath
      else row.taskPlanPath
    revision := row.revision + 1
    updatedAt := now
    updatedBy := ctx.agent
    updatedBranch := ctx.branch
    updatedCommitSha := ctx.commitSha }

/-- The snapshot that an update of a row intends. -/
def updateSnapshot (ctx : WriteContext) (status : Option TaskStatus)
    (row : TaskRow) (expected : Int) : Snapshot where
  taskRef := row.taskRef
  objective := c.objective.getD row.objective
  focus := c.focus.or (normalizeOptionalText row.focus)
  status := status.getD row.status
  targetBranch := c.targetBranch.or (normalizeOptionalText row.targetBranch)
  targetWorktreePath := c.targetWorktreePath.or (normalizeOptionalText row.targetWorktreePath)
  taskPlanPath := normalizeOptionalText (c.taskPlanPath.or row.taskPlanPath)
  revision := expected + 1
  updatedBy := ctx.agent
  updatedBranch := ctx.branch
  updatedCommitSha := ctx.commitSha

/-- `update_state` -/
def changeState (taskRef : String) (expected : Int) (f : TaskRow → TaskRow) (s : Store) :
    Except Raised Store := do
  let hit : TaskRow → Bool := fun row => row.taskRef = taskRef && row.revision = expected
  require ((s.tasks.filter hit).length = 1) .lostFence
  return { s with tasks := s.tasks.map fun row => if hit row then f row else row }

/-- The part of an update after the claim of the event id and the check of the revision. -/
def stageUpdate (c : StateCall) (ctx : WriteContext)
    (binding : Option ProducerBinding) (status : Option TaskStatus) (row : TaskRow)
    (expected : Int) (warnings : List String) : Except Raised (Store × Envelope) := do
  let staged ← stageChange s { c.producer with binding } row.taskRef ctx.laneId
    (updateSnapshot c ctx status row expected) c.eventId
    (changeState row.taskRef expected (updatedRow c ctx status o.now))
  let active ← getHandoffRowForTask staged.1.tasks row.taskRef
  match active with
  | none => return (staged.1, refused (some row.taskRef) "Active handoff state missing after update.")
  | some active => return ({ staged.1 with
        claims := completeProjectionEvent staged.1.claims c.eventId "handoff_state" none
          (some row.taskRef) },
      { ok := true, taskRef := some row.taskRef, operation := some .update
        taskRevision := some active.revision, active := some active, lifecycle := some staged.2
        warnings })

/-- The part of an update after the claim of the event id. -/
def claimedUpdate (c : StateCall) (ctx : WriteContext)
    (binding : Option ProducerBinding) (status : Option TaskStatus) (row : TaskRow)
    (expected : Int) : Except Raised (Store × Envelope) := do
  let warnings ← orRaise o.warnings
  if row.revision ≠ expected then
    return ({ s with claims := clearProjectionEventClaim s.claims c.eventId },
      { refused (some row.taskRef) "Revision conflict." with
        currentRevision := some row.revision })
  else stageUpdate s o c ctx binding status row expected warnings

/-- The part of `_mutate_handoff_state_with_conn` for a task that has a row. -/
def updateState (c : StateCall) (ctx : WriteContext)
    (binding : Option ProducerBinding) (status : Option TaskStatus) (row : TaskRow) :
    Except Raised (Store × Envelope) :=
  match expectedRevision c row with
  | none => .ok (s, { refused (some row.taskRef) ("expected_revision is required for updates. " ++
      "Fetch the active row first via get_handoff_state(sections='identity') " ++
      "and pass its revision field as expected_revision.") with
      currentRevision := some row.revision })
  | some expected =>
    match claimProjectionEvent s.claims c.eventId "set_handoff_state" "handoff_state"
        (some row.taskRef) o.now with
    | (some existing, _) => do
      let envelope ← replayedState s row.taskRef c.eventId existing
      return (s, envelope)
    | (none, claims) => claimedUpdate { s with claims } o c ctx binding status row expected

/-- `_mutate_handoff_state_with_conn` -/
def mutateHandoffState (c : StateCall) (ctx : WriteContext)
    (status : Option TaskStatus) : Except Raised (Store × Envelope) := do
  let row ← getHandoffRowForTask s.tasks c.taskRef
  let binding := fenceProducerBinding row c
  match row with
  | none => createState s o c ctx binding (status.getD .inProgress)
  | some row => updateState s o c ctx binding status row

/-- `set_handoff_state` -/
def setHandoffState (c : StateCall) :
    Except Raised (Store × Envelope) :=
  match c.shapeError with
  | some error => .ok (s, refused (some c.taskRef) error)
  | none => do
    let _ ← getHandoffRowForTask s.tasks c.taskRef
    let ctx ← orRaise o.context
    match c.status.map TaskStatus.ofText? with
    | some none => return (s, refused (some c.taskRef)
        "Invalid status. Valid: blocked, done, in_progress, review")
    | some (some status) => mutateHandoffState s o c ctx (some status)
    | none => mutateHandoffState s o c ctx none

/-! ## `record_decision` -/

/-- Functions of the arguments alone: the checks of a decision and of its changed files, the origin
that the table gives a decision without one, and the summary of a test result. -/
structure TextRules where
  decisionError : String → Option String → Option String
  changedFiles : List String → Except String (List String)
  decisionOrigin : String → Option String
  summarizeTestResult : Option String → Option String

/-- `_idempotent_decision_envelope` -/
def idempotentDecisionEnvelope (resolved : String) (existing : ClaimRow) : Envelope :=
  let taskRef := (existing.taskRef.filter (· ≠ "")).getD resolved
  { ok := true, taskRef := some taskRef, idempotent := true, operation := some .noop
    affectedIds := existing.targetId.toList
    taskRevision := currentTaskRevision s.tasks taskRef
    decision := if existing.targetTable = "decisions" then
        existing.targetId.bind fun id => s.decisions.find? (·.id = id)
      else none }

/-- The row has the key of a decision. -/
def DecisionRow.hasKey (row : DecisionRow) (taskRef decision session : String) : Bool :=
  row.taskRef = taskRef && row.decision = decision && row.session = session

/-- The row that a decision inserts. -/
def decisionRow (id : Nat) (resolved : String) (ctx : WriteContext)
    (c : DecisionCall) (now : String) : DecisionRow where
  id := id
  taskRef := resolved
  laneId := ctx.laneId
  session := c.session
  decision := c.decision
  rationale := if normalizeOptionalText c.rationale = none then none else c.rationale
  agent := ctx.agent
  harness := ctx.harness
  model := ctx.model
  modelLabel := ctx.modelLabel
  reasoningLevel := ctx.reasoningLevel
  inputTokens := c.inputTokens
  outputTokens := c.outputTokens
  totalTokens := c.totalTokens
  changedFiles := c.changedFiles.getD []
  sliceNumber := c.sliceNumber
  branch := ctx.branch
  commitSha := ctx.commitSha
  decisionOrigin := c.decisionOrigin
  createdAt := now

/-- `ON CONFLICT … DO UPDATE SET`: what is left out stays. -/
def DecisionRow.refresh (old excluded : DecisionRow) : DecisionRow :=
  { old with
    rationale := excluded.rationale.or old.rationale
    laneId := excluded.laneId.or old.laneId
    agent := excluded.agent.or old.agent
    harness := excluded.harness.or old.harness
    model := excluded.model.or old.model
    modelLabel := excluded.modelLabel.or old.modelLabel
    reasoningLevel := excluded.reasoningLevel.or old.reasoningLevel
    inputTokens := excluded.inputTokens.or old.inputTokens
    outputTokens := excluded.outputTokens.or old.outputTokens
    totalTokens := excluded.totalTokens.or old.totalTokens
    branch := excluded.branch.or old.branch
    commitSha := excluded.commitSha.or old.commitSha
    changedFiles := if excluded.changedFiles = [] then old.changedFiles else excluded.changedFiles
    sliceNumber := excluded.sliceNumber.or old.sliceNumber
    decisionOrigin := excluded.decisionOrigin.or old.decisionOrigin }

variable (rules : TextRules)

/-- The upsert: the rows, the id of the row and what was done. -/
def upsertDecision (decisions : List DecisionRow) (new : DecisionRow)
    (refresh : Bool) : List DecisionRow × Nat × MutationOperation :=
  match decisions.find? (·.hasKey new.taskRef new.decision new.session) with
  | none =>
    (decisions ++ [{ new with
      decisionOrigin := new.decisionOrigin.or (rules.decisionOrigin new.decision) }],
      new.id, .insert)
  | some old =>
    if refresh then
      (decisions.map fun row =>
        if row.hasKey new.taskRef new.decision new.session then row.refresh new else row,
        old.id, .update)
    else (decisions, old.id, .noop)

/-- The part of `_record_decision_with_conn` after the claim of the event id. -/
def storeDecision (s : Store) (o : Outside) (c : DecisionCall)
    (resolved : String) (ctx : WriteContext) (warnings : List String) : Store × Envelope :=
  let new := decisionRow (nextId (s.decisions.map DecisionRow.id)) resolved ctx c o.now
  let stored := upsertDecision rules s.decisions new c.refreshRationaleOnConflict
  ({ s with
      decisions := stored.1
      claims := completeProjectionEvent s.claims c.eventId "decisions" (some stored.2.1)
        (some resolved) },
    { ok := true, taskRef := some resolved, idempotent := stored.2.2 = .noop
      operation := some stored.2.2, affectedIds := [stored.2.1]
      taskRevision := currentTaskRevision s.tasks resolved
      decision := stored.1.find? (·.hasKey resolved c.decision c.session), warnings })

/-- The claim of an event id is of the row of a decision. -/
def ownsDecision (decisions : List DecisionRow) (existing : ClaimRow)
    (resolved decision session : String) : Bool :=
  match decisions.find? (·.hasKey resolved decision session) with
  | some row => existing.targetTable = "decisions" && existing.targetId = some row.id
  | none => false

/-- The part of `_record_decision_with_conn` that claims the event id. -/
def claimDecision (s : Store) (o : Outside) (c : DecisionCall)
    (resolved : String) (ctx : WriteContext) (warnings : List String) : Store × Envelope :=
  match claimProjectionEvent s.claims c.eventId "record_event.decision" "decisions" (some resolved)
      o.now with
  | (some existing, _) =>
    if c.refreshRationaleOnConflict then
      if ownsDecision s.decisions existing resolved c.decision c.session then
        storeDecision rules s o c resolved ctx warnings
      else (s, refused none ("event_id already targets a different decision (target_table='" ++
        existing.targetTable ++ "', target_id=" ++ (existing.targetId.map toString).getD "None" ++
        "); refusing to rebind under refresh_rationale_on_conflict"))
    else (s, idempotentDecisionEnvelope s resolved existing)
  | (none, claims) => storeDecision rules { s with claims } o c resolved ctx warnings

/-- `_record_decision_with_conn` -/
def recordDecisionWithConn (s : Store) (o : Outside) (c : DecisionCall) :
    Except Raised (Store × Envelope) := do
  let resolved ← orRaise o.taskRef
  match if c.refreshRationaleOnConflict then none else fetchProjectionEvent s.claims c.eventId with
  | some prior => return (s, idempotentDecisionEnvelope s resolved prior)
  | none => do
    let ctx ← orRaise o.context
    let warnings ← orRaise o.warnings
    return claimDecision rules s o c resolved ctx warnings

/-- `record_decision` -/
def recordDecision (s : Store) (o : Outside) (c : DecisionCall) :
    Except Raised (Store × Envelope) :=
  match rules.decisionError c.decision c.rationale with
  | some error => .ok (s, refused none error)
  | none =>
    if c.decisionOrigin.any (fun origin => origin ≠ "agent" && origin ≠ "system") then
      .ok (s, refused none ("decision_origin must be 'agent' or 'system' (or omitted); got '" ++
        c.decisionOrigin.getD "" ++ "'"))
    else
      match c.changedFiles.map rules.changedFiles with
      | some (.error error) => .ok (s, refused none error)
      | some (.ok files) => recordDecisionWithConn rules s o { c with changedFiles := some files }
      | none => recordDecisionWithConn rules s o c

/-! ## `record_test_result` -/

/-- `_idempotent_test_envelope` -/
def idempotentTestEnvelope (resolved : String) (existing : ClaimRow) : Envelope :=
  let taskRef := (existing.taskRef.filter (· ≠ "")).getD resolved
  { ok := true, taskRef := some taskRef, idempotent := true, operation := some .noop
    affectedIds := existing.targetId.toList
    taskRevision := currentTaskRevision s.tasks taskRef
    test := if existing.targetTable = "verified_tests" then
        existing.targetId.bind fun id => s.tests.find? (·.id = id)
      else none }

/-- `_normalize_test_traces_payload` -/
def normalizeTestTraces (traces : Option (List String)) (fallbackResult : Option String) :
    List String :=
  match traces with
  | some traces => traces
  | none => (fallbackResult.filter (· ≠ "")).toList

/-- The part of `record_test_result` after the claim of the event id. -/
def storeTest (s : Store) (o : Outside) (c : TestCall) (resolved : String)
    (ctx : WriteContext) (warnings : List String) : Store × Envelope :=
  let id := nextId (s.tests.map TestRow.id)
  let row : TestRow :=
    { id, taskRef := resolved, laneId := ctx.laneId, command := c.command, passed := c.passed
      exitCode := c.exitCode, result := rules.summarizeTestResult c.result, session := c.session
      agent := ctx.agent, branch := ctx.branch, commitSha := ctx.commitSha, verifiedAt := o.now }
  let traces := (normalizeTestTraces c.traces c.result).mapIdx fun order trace =>
    ({ verifiedTestId := id, taskRef := resolved, traceOrder := order, trace, createdAt := o.now } :
      TraceRow)
  ({ s with
      tests := s.tests ++ [row], traces := s.traces ++ traces
      claims := completeProjectionEvent s.claims c.eventId "verified_tests" (some id)
        (some resolved) },
    { ok := true, taskRef := some resolved, operation := some .insert, affectedIds := [id]
      taskRevision := currentTaskRevision s.tasks resolved, test := some row, warnings })

/-- The part of `record_test_result` that claims the event id. -/
def claimTest (s : Store) (o : Outside) (c : TestCall) (resolved : String)
    (ctx : WriteContext) (warnings : List String) : Store × Envelope :=
  match claimProjectionEvent s.claims c.eventId "record_event.test_result" "verified_tests"
      (some resolved) o.now with
  | (some existing, _) => (s, idempotentTestEnvelope s resolved existing)
  | (none, claims) => storeTest rules { s with claims } o c resolved ctx warnings

/-- `record_test_result` -/
def recordTestResult (s : Store) (o : Outside) (c : TestCall) :
    Except Raised (Store × Envelope) := do
  let resolved ← orRaise o.taskRef
  match fetchProjectionEvent s.claims c.eventId with
  | some prior => return (s, idempotentTestEnvelope s resolved prior)
  | none => do
    let ctx ← orRaise o.context
    let warnings ← orRaise o.warnings
    return claimTest rules s o c resolved ctx warnings

/-! ## The store over time -/

/-- A call of one of the writers. -/
inductive HandoffCall where
  | state (o : Outside) (c : StateCall)
  | decision (o : Outside) (c : DecisionCall)
  | test (o : Outside) (c : TestCall)
deriving DecidableEq

/-- The event id of a call, as it is compared. -/
def HandoffCall.eventId : HandoffCall → Option String
  | .state _ c => normalizeEventId c.eventId
  | .decision _ c => normalizeEventId c.eventId
  | .test _ c => normalizeEventId c.eventId

/-- What a call does. -/
def HandoffCall.effect (s : Store) :
    HandoffCall → Except Raised (Store × Envelope)
  | .state o c => setHandoffState s o c
  | .decision o c => recordDecision rules s o c
  | .test o c => recordTestResult rules s o c

/-- The store as a machine; a call that raises is rolled back. -/
def handoffMachine :
    Effects.Machine Store HandoffCall (Except Raised Envelope) where
  step s call :=
    match call.effect rules s with
    | .ok (s', envelope) => (s', .ok envelope)
    | .error e => (s, .error e)

end Workbay.Handoff
