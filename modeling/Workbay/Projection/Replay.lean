import Workbay.Compiler.WorkItems

/-!
# Projection payloads

An event that could not be written to the handoff database is spooled, and replayed later through the
handoff command line. A key made of some of its fields tells whether two spooled events are the same.
-/

namespace Workbay.Projection

open Workbay.Compiler (truthy)

/-- A spooled event. -/
abbrev Payload := Dict String Json

/-- The digest of an identity. SHA-256 is taken to separate identities. -/
structure IdempotencyKey where
  identity : List Json
deriving DecidableEq

/-- What the interpreter, the file system and the installation provide. -/
structure Platform where
  /-- `str(value)` of a float, a list or a dictionary -/
  display : Json → String
  /-- `repr(text)` -/
  quote : String → String
  /-- `json.dumps(payload, sort_keys=True, default=str)` -/
  dumpsSorted : Payload → String
  /-- `hexdigest()` -/
  hexdigest : IdempotencyKey → String
  /-- `json.loads(text)`, unless it raises -/
  loads : String → Option Json
  /-- `Path(text).is_dir()` -/
  isDir : String → Bool
  /-- The console and its workspace, which every command line starts with -/
  console : List String

variable (p : Platform)

/-- `str(value)` -/
def Platform.str : Json → String
  | .null => "None"
  | .bool true => "True"
  | .bool false => "False"
  | .int i => toString i
  | .str s => s
  | value => p.display value

/-! ## Fields -/

variable (payload : Payload)

/-- `payload.get(key)` -/
def field (key : String) : Json := payload.getD key .null

/-- `str(payload.get(key, ""))` -/
def Platform.textOf (key : String) : String :=
  match payload.get? key with
  | some value => p.str value
  | none => ""

/-- `str(payload.get(key) or default)` -/
def Platform.textOr (key default : String) : String :=
  if truthy (field payload key) then p.str (field payload key) else default

/-- The option that passes a text on, unless it is empty or no text. -/
def optionOf (flag key : String) (payload : Payload) : List String :=
  match field payload key with
  | .str s => if s = "" then [] else [flag, s]
  | _ => []

/-! ## The identity of an event -/

/-- The fields that tell the events of a kind apart. -/
def identityFields (kind : String) : Option (List String) :=
  if kind = "decision" then
    some ["session", "task_ref", "decision_id", "branch", "commit_sha"]
  else if kind = "test_result" then
    some ["session", "task_ref", "command", "passed", "exit_code", "result", "branch", "commit_sha"]
  else if kind = "state_sync" then
    some ["task_ref", "target_branch", "target_worktree_path", "status", "branch", "commit_sha"]
  else none

/-- The tuple that `event_idempotency_key` digests. -/
def Platform.identity : List Json :=
  .str (p.textOr payload "kind" "") ::
    match identityFields (p.textOr payload "kind" "") with
    | some keys => keys.map (field payload)
    | none => [.str (p.dumpsSorted payload)]

/-- `event_idempotency_key` -/
def Platform.eventIdempotencyKey : IdempotencyKey :=
  ⟨p.identity payload⟩

/-- `_projection_event_id` -/
def Platform.projectionEventId : String :=
  match field payload "event_id" with
  | .str eventId =>
    if eventId = "" then p.hexdigest (p.eventIdempotencyKey payload) else eventId
  | _ => p.hexdigest (p.eventIdempotencyKey payload)

/-- The options that an event may carry, whatever its kind. -/
def branchOptions : List String :=
  optionOf "--branch" "branch" payload ++ optionOf "--commit-sha" "commit_sha" payload

/-- `--exit-code` -/
def Platform.exitCodeOption : List String :=
  match field payload "exit_code" with
  | .null => []
  | code => ["--exit-code", p.str code]

/-- `_build_test_result_argv` -/
def Platform.buildTestResultArgv (eventId : String) :
    List String :=
  p.console ++ ["event", "--event-kind", "test_result", "--session", p.textOf payload "session",
    "--command", p.textOf payload "command", "--event-id", eventId] ++
  optionOf "--task-ref" "task_ref" payload ++ branchOptions payload ++
  (if truthy (field payload "passed") then ["--passed"] else []) ++
  p.exitCodeOption payload ++
  (if truthy (field payload "result") then ["--result", p.str (field payload "result")] else [])

/-- `--objective` -/
def objectiveOption : List String :=
  match field payload "objective" with
  | .str objective => ["--objective", objective]
  | _ => []

/-- `--expected-revision` -/
def revisionOption : Option Nat → List String
  | some revision => ["--expected-revision", toString revision]
  | none => []

/-- `_build_state_sync_argv` -/
def Platform.buildStateSyncArgv (eventId : String)
    (expectedRevision : Option Nat) : List String :=
  p.console ++ ["set", "--task-ref", p.textOf payload "task_ref",
    "--target-branch", p.textOf payload "target_branch",
    "--target-worktree-path", p.textOf payload "target_worktree_path",
    "--status", p.textOr payload "status" "in_progress", "--event-id", eventId] ++
  revisionOption expectedRevision ++ objectiveOption payload ++
  optionOf "--task-plan-path" "task_plan_path" payload ++ branchOptions payload

/-- `_build_decision_argv` -/
def Platform.buildDecisionArgv (eventId : String) :
    List String :=
  p.console ++ ["event", "--event-kind", "decision", "--session", p.textOf payload "session",
    "--decision", p.textOf payload "decision_id", "--rationale", p.textOf payload "rationale",
    "--event-id", eventId] ++
  optionOf "--task-ref" "task_ref" payload ++ branchOptions payload

/-- `_build_workflow_intent_argv` -/
def Platform.buildWorkflowIntentArgv (eventId : String) :
    List String :=
  let decisionId := p.textOr payload "decision_id" eventId
  p.console ++ ["event", "--event-kind", "decision", "--session", decisionId,
    "--decision", decisionId, "--rationale",
    "invoke /" ++ p.textOr payload "skill" "" ++ " for " ++ p.textOr payload "doc" "",
    "--event-id", eventId] ++
  optionOf "--task-ref" "task_ref" payload ++ branchOptions payload

/-- A run of the handoff command line. -/
structure Command where
  argv : List String
  cwd : Option String := none
deriving DecidableEq

/-- The directory that a state is written from, if it is there. -/
def Platform.stateSyncCwd : Option String :=
  match field payload "target_worktree_path" with
  | .str target => if p.isDir target then some target else none
  | _ => none

/-- The command that writes an event, with an event id and an expected revision. -/
def Platform.writeOf (eventId : String)
    (expectedRevision : Option Nat) : Option Command :=
  if field payload "kind" = .str "test_result" then
    some { argv := p.buildTestResultArgv payload eventId }
  else if field payload "kind" = .str "state_sync" then
    some { argv := p.buildStateSyncArgv payload eventId expectedRevision,
           cwd := p.stateSyncCwd payload }
  else if field payload "kind" = .str "decision" then
    some { argv := p.buildDecisionArgv payload eventId }
  else if field payload "kind" = .str "workflow_intent" then
    some { argv := p.buildWorkflowIntentArgv payload eventId }
  else none

end Workbay.Projection

/-!
## The replay of one event

An event is written by a run of the handoff command line, whose exit code and output decide what
becomes of it. A state is written with the revision that was read before.
-/

namespace Workbay.Projection

/-- A run that has finished. -/
structure CompletedProcess where
  returncode : Int
  stdout : String

/-- What replays meet: the run of each command in the n-th replay, and whether the dead-letter sink
accepts an event then. -/
structure Backend where
  run : Nat → Command → CompletedProcess
  park : Nat → Payload → Bool

/-- What becomes of an event. -/
inductive ReplayStatus where
  | synced
  | unsupported
  | tombstonedArchived
  | pending
  | spooled
deriving DecidableEq

/-- The command was not found, timed out or was killed. -/
def unreachable (returncode : Int) : Bool :=
  decide (returncode < 0) || decide (returncode = 124) || decide (returncode = 127)

/-- `value.get(key)` of an object -/
def member (value : Json) (key : String) : Json := (value.get? key).getD .null

/-! ## The revision that a state is written with -/

variable (p : Platform)

/-- The task is archived, was never there, or is not known to be either. -/
def archiveAnswer (taskRef : String) (run : CompletedProcess) :
    Except ReplayStatus Unit :=
  match p.loads run.stdout with
  | some (.obj envelope) =>
    match field envelope "data" with
    | .obj data =>
      if run.returncode = 0 ∧ field envelope "ok" = .bool true ∧
          (member (field data "archive") "task_ref").pyEq (.str taskRef) then
        .error .tombstonedArchived
      else if (run.returncode = 0 ∨ run.returncode = 1) ∧ field envelope "ok" = .bool false ∧
          field data "error" =
            .str ("No archived task found for task_ref=" ++ p.quote taskRef ++ ".") then
        .ok ()
      else .error .spooled
    | _ => .error .spooled
  | _ => .error .spooled

variable (payload : Payload)

/-- The revision of the row of a task. -/
def rowRevision (active : Json) : Except ReplayStatus Nat :=
  match active with
  | .obj row =>
    if (field row "task_ref").pyEq (field payload "task_ref") then
      match field row "revision" with
      | .int revision => if 0 ≤ revision then .ok revision.toNat else .error .spooled
      | _ => .error .spooled
    else .error .spooled
  | _ => .error .spooled

/-- `handoff_command_argv(repo, "state", …)` -/
def stateCommand : Command :=
  { argv := p.console ++ ["state", p.textOf payload "task_ref", "--sections", "identity"] }

/-- `handoff_command_argv(repo, "archive", …)` -/
def archiveCommand : Command :=
  { argv := p.console ++
      ["archive", "--operation", "get", "--task-ref", p.textOf payload "task_ref"] }

/-- `_read_state_sync_revision`, given the answers to its commands -/
def readStateSyncRevision (run : Command → CompletedProcess) (payload : Payload) :
    Except ReplayStatus (Option Nat) :=
  if unreachable (run (stateCommand p payload)).returncode then .error .pending
  else if (run (stateCommand p payload)).returncode ≠ 0 then .error .spooled
  else match p.loads (run (stateCommand p payload)).stdout with
    | some (.obj envelope) =>
      if field envelope "ok" = .bool true then
        match field envelope "data" with
        | .obj data =>
          match Dict.get? data "active" with
          | none => .error .spooled
          | some .null =>
            (archiveAnswer p (p.textOf payload "task_ref") (run (archiveCommand p payload))).map
              fun _ => none
          | some active => (rowRevision payload active).map some
        | _ => .error .spooled
      else .error .spooled
    | _ => .error .spooled

/-! ## The answer to a write -/

/-- `re.fullmatch(r"sha256:[0-9a-f]{64}", text)` -/
def isSha256Id (text : String) : Bool :=
  decide (text.toList.take 7 = "sha256:".toList) &&
    decide ((text.toList.drop 7).length = 64) &&
    (text.toList.drop 7).all fun c => c ∈ "0123456789abcdef".toList

/-- The event that a receipt says was recorded. -/
def observedEvent (lifecycle : Dict String Json) : Bool :=
  decide (field lifecycle "knowledge" = .str "observed") &&
    (match field lifecycle "sequence" with
      | .int sequence => decide (0 < sequence)
      | _ => false) &&
    (match field lifecycle "inserted" with
      | .bool _ => true
      | _ => false) &&
    (match field lifecycle "event_id" with
      | .str eventId => isSha256Id eventId
      | _ => false)

/-- The row is the one that was to be written. -/
def rowMatches (row : Dict String Json) (payload : Payload) : Bool :=
  (["task_ref", "target_branch", "target_worktree_path", "status"].all fun key =>
    (field row key).pyEq (field payload key)) &&
  (["objective", "task_plan_path"].all fun key =>
    decide (field payload key = .null) || (field row key).pyEq (field payload key)) &&
  (match field row "revision" with
    | .int revision => decide (0 ≤ revision)
    | _ => false)

/-- `state_sync_receipt_matches` -/
def stateSyncReceiptMatches (stdout : String) (payload : Payload) : Bool :=
  match p.loads stdout with
  | some (.obj result) =>
    decide (field result "ok" = .bool true) &&
      match field result "data" with
      | .obj data =>
        match field data "active", field data "lifecycle_resource" with
        | .obj active, .obj lifecycle =>
          observedEvent lifecycle &&
            if field data "idempotent" = .bool true then
              match field lifecycle "snapshot" with
              | .obj snapshot => rowMatches snapshot payload
              | _ => false
            else rowMatches active payload
        | _, _ => false
      | _ => false
  | _ => false

/-- `_rejection_data` -/
def rejectionData (stdout : String) : Option (Dict String Json) :=
  match p.loads stdout with
  | some (.obj parsed) =>
    if field parsed "ok" = .bool false then
      match field parsed "data" with
      | .obj data => some data
      | _ => some []
    else none
  | _ => none

/-- What becomes of an event once its write has run. -/
def writeStatus (proc : CompletedProcess) : ReplayStatus :=
  if unreachable proc.returncode then .pending
  else if proc.returncode ≠ 0 then .spooled
  else if field payload "kind" = .str "state_sync" then
    if stateSyncReceiptMatches p proc.stdout payload then .synced else .spooled
  else match rejectionData p proc.stdout with
    | none => .synced
    | some data => if field data "current_revision" = .null then .spooled else .synced

/-- The write of an event, if its kind has one. -/
def replayWrite (run : Command → CompletedProcess) (payload : Payload)
    (expectedRevision : Option Nat) : Option ReplayStatus :=
  (p.writeOf payload (p.projectionEventId payload) expectedRevision).map fun command =>
    writeStatus p payload (run command)

/-- `_replay_entry`, the n-th time that it is called -/
def replayEntry (backend : Backend) (n : Nat) (payload : Payload) : ReplayStatus :=
  if field payload "kind" = .str "state_sync" then
    match readStateSyncRevision p (backend.run n) payload with
    | .error status => status
    | .ok revision => (replayWrite p (backend.run n) payload revision).getD .unsupported
  else match replayWrite p (backend.run n) payload none with
    | some status => status
    | none => if backend.park n payload then .unsupported else .pending

end Workbay.Projection
