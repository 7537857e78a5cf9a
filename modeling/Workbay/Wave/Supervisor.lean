import Workbay.Wave.Replay

/-!
# The wave supervisor

One call of `step` advances a wave by one bounded round: it submits ready lanes, polls running
ones, gates collected ones, integrates gated ones into the wave branch and parks lanes that can
never run. It keeps nothing between two calls but what the journal says.

`step` is a program over the git commands, the journal, and the executor and the gate that it was
given. Each of these is one atomic step; between two of them the process can die, and others can
write to the journal and the repository.
-/

namespace Workbay.Wave

open Effects Git

/-- Dependencies and bounded-dispatch settings for a single wave. -/
structure SupervisorContext where
  /-- The parsed spec, or the wave id of a document that is no spec. -/
  spec : Except (Option String) WaveSpec
  width : Int := 1
  attemptBudget : Int := 1
  baseSha : Option String := none
  /-- `_operator_width_bound`: the narrowest configured bound, or an error. -/
  widthBound : Except Unit (Option Int) := .ok none
  /-- Whether an admission check is configured. -/
  hasAdmission : Bool := false

/-- The wave whose journal the context works on. -/
def SupervisorContext.wave (ctx : SupervisorContext) : String :=
  match ctx.spec with
  | .ok spec => spec.wave
  | .error wave => wave.getD ""

/-- A journal event returned by `step`, or a typed local refusal. -/
structure SupervisorEvent where
  kind : String
  fields : Dict String Json
  eventId : Option String := none
  durable : Bool := true
deriving DecidableEq

/-- `AdmissionDecision` -/
structure AdmissionDecision where
  admitted : Bool
  reason : String
deriving DecidableEq

/-! ## Operations -/

/-- What a supervisor does to the outside. -/
inductive SupervisorOp where
  /-- Run a git command that only reads. -/
  | readRepo
  /-- `commit-tree <tree> -p <parent>... -m <message>` -/
  | commitTree (tree : String) (parents : List String) (message : String)
  /-- `update-ref <ref> <new> <old>`; no old value creates the ref -/
  | updateRef (ref new : String) (old : Option String)
  /-- `wave_journal.read` -/
  | readJournal
  /-- `wave_journal.append` -/
  | append (kind : String) (fields : Dict String Json) (seq : Nat) (parent : Option String)
  /-- `ctx.should_stop` -/
  | shouldStop
  /-- `ctx.admission` -/
  | admission (laneId : LaneId) (pending : Nat)
  /-- `ctx.executor.submit` -/
  | submit (laneId : LaneId) (attempt : Int)
  /-- `ctx.executor.status` -/
  | status (job : Json)
  /-- `ctx.executor.collect` -/
  | collect (job : Json)
  /-- `ctx.gate` -/
  | gate (laneId : LaneId) (tip : Option String)

/-- The answers. An admission check that raises or returns no decision answers `none`. -/
abbrev SupervisorOp.Answer : SupervisorOp → Type
  | .readRepo => Repo
  | .commitTree .. => Option String
  | .updateRef .. => Bool
  | .readJournal => Except String (List JournalEvent)
  | .append .. => AppendResult
  | .shouldStop => Bool
  | .admission .. => Option AdmissionDecision
  | .submit .. => Json
  | .status _ => String
  | .collect _ => Json
  | .gate .. => Json

/-- Programs of the supervisor. -/
abbrev SupervisorM (α : Type) := Prog SupervisorOp SupervisorOp.Answer Failure α

/-- Perform one operation. -/
abbrev SupervisorOp.run (op : SupervisorOp) : SupervisorM op.Answer := Prog.perform op

/-- `wave_journal.read` -/
def readJournal : SupervisorM (List JournalEvent) := do
  match ← SupervisorOp.readJournal.run with
  | .ok events => return events
  | .error reason => .raise (.journal reason)

variable (wave : String)

/-- `replay` on the journal and the repository as they are now. -/
def replayNow : SupervisorM LaneStates := do
  let events ← readJournal
  let repo ← SupervisorOp.readRepo.run
  Prog.ofExcept (replay repo wave events)

/-! ## Preparation -/

/-- The fields of a problem of the wave graph. -/
def Problem.toJson : Problem → Json
  | .selfDependency laneId => .obj [("type", .str "self_dependency"), ("lane_id", .str laneId)]
  | .danglingDependency laneId dependency =>
    .obj [("type", .str "dangling_dependency"), ("lane_id", .str laneId),
      ("dependency", .str dependency)]
  | .nonCanonicalPath laneId path =>
    .obj [("type", .str "non_canonical_path"), ("lane_id", .str laneId), ("path", .str path)]
  | .cycle laneIds =>
    .obj [("type", .str "cycle"), ("lane_ids", .arr (laneIds.map Json.str))]

/-- Why a context is refused: the wave it names and the fields of the refusal. -/
structure Refusal where
  wave : Option String
  fields : Dict String Json
  retryable : Bool := false

/-- A context that has passed every check. -/
structure Prepared where
  wave : String
  spec : WaveSpec
  baseSha : String

/-- `_FULL_SHA_RE`: 40 or 64 lower-case hexadecimal digits. -/
def isFullSha (value : String) : Bool := isFullObjectId value 40 || isFullObjectId value 64

variable (ctx : SupervisorContext)

/-- The checks of `_prepare` before the base commit is looked up. -/
def prepareSpec : Except Refusal (WaveSpec × String) :=
  match ctx.spec with
  | .error wave => .error ⟨wave, [("reason", .str "invalid_wave_spec")], false⟩
  | .ok spec =>
    let refuse (reason : String) : Except Refusal (WaveSpec × String) :=
      .error ⟨some spec.wave, [("reason", .str reason)], false⟩
    match validateWaveId spec.wave with
    | .error x => refuse x.reason
    | .ok () =>
      let problems := validate spec
      if problems ≠ [] then
        .error ⟨some spec.wave, [("reason", .str "invalid_wave_spec"),
          ("problems", .arr (problems.map Problem.toJson))], false⟩
      else
        match ctx.widthBound with
        | .error () => refuse "invalid_width_bound"
        | .ok bound =>
          if ctx.width < 1 ∨ bound.any (fun b => ctx.width > b) then refuse "invalid_width"
          else if ctx.attemptBudget < 1 then refuse "invalid_attempt_budget"
          else
            match ctx.baseSha with
            | some base => if isFullSha base then .ok (spec, base) else refuse "invalid_base_sha"
            | none => refuse "invalid_base_sha"

/-- `_prepare`. `cat-file -e` fails on a name that does not resolve to a commit. -/
def prepare : SupervisorM (Except Refusal Prepared) :=
  match prepareSpec ctx with
  | .error refusal => return .error refusal
  | .ok (spec, base) => do
    let repo ← SupervisorOp.readRepo.run
    match repo.peelCommit base with
    | some _ => return .ok ⟨spec.wave, spec, base⟩
    | none =>
      return .error ⟨some spec.wave,
        [("reason", .str "commit_check_failed"), ("retryable", .bool true)], true⟩

/-! ## Emission -/

/-- The producer of the supervisor's events. -/
def supervisorProducer : String := "supervisor:" ++ wave

/-- `_emit` -/
def emit (wave kind : String) (fields : Dict String Json) : SupervisorM SupervisorEvent := do
  let existing ← readJournal
  let seq := existing.length + 1
  let parent := existing.getLast?.map JournalEvent.eventId
  match ← (SupervisorOp.append kind fields seq parent).run with
  | .appended eventId _ => return ⟨kind, fields, some eventId, true⟩
  | .duplicate =>
    let events ← readJournal
    match events.find? fun e => e.producer = supervisorProducer wave ∧ e.producerSeq = (seq : Int) with
    | some e => return ⟨kind, fields, some e.eventId, true⟩
    | none => return ⟨kind, fields, none, false⟩
  | .refused reason => .raise (.supervisor reason)

variable (laneId : LaneId)

/-- `_check_admission` -/
def checkAdmission (pending : Nat) :
    SupervisorM (Option AdmissionDecision) := do
  if !ctx.hasAdmission then return none
  else
    match ← (SupervisorOp.admission laneId pending).run with
    | some decision => return some decision
    | none => return some ⟨false, "vm_admission_unmeasured:admission_error"⟩

/-- `_record_admission_deferral` -/
def recordAdmissionDeferral (reason : String)
    (states : LaneStates) : SupervisorM (Option SupervisorEvent) := do
  if (states.lane laneId).admissionDeferredReason = some reason then return none
  else
    let event ← emit wave "lane.admission_deferred"
      [("lane_id", .str laneId), ("reason", .str reason)]
    return some event

/-! ## Commits -/

/-- `_pin_commit`: resolve a collected full id once. -/
def pinCommit (repo : Repo) (tip : String) : Except String String :=
  if !isFullObjectId tip repo.objectIdLength then .error "invalid_tip_sha"
  else
    match repo.peelCommit tip with
    | none => .error "invalid_tip_commit"
    | some resolved =>
      if !isFullObjectId resolved repo.objectIdLength then .error "invalid_tip_commit"
      else .ok resolved

/-- `_is_commit_ahead` -/
def isCommitAhead (repo : Repo) (base tip : String) : Except String Bool :=
  if tip = base then .ok false
  else
    match repo.isAncestor base tip with
    | some ahead => .ok ahead
    | none => .error "content_ancestry_check_failed"

/-- An optional string as a field; an absent one is `null`. -/
def optionalStr : Option String → Json
  | some s => .str s
  | none => .null

/-- `_revalidate_collected`: apply the collection result and content rule before any gate. -/
def revalidateCollected (wave base : String) (laneId : LaneId) (lane : LaneState) :
    SupervisorM (Option SupervisorEvent) := do
  match lane.ok, lane.tip with
  | some ok, some tip =>
    let repo ← SupervisorOp.readRepo.run
    match isCommitAhead repo base tip with
    | .error reason =>
      let event ← emit wave "lane.parked" [("lane_id", .str laneId), ("reason", .str reason)]
      return some event
    | .ok ahead =>
      if ok ≠ ahead then
        let event ← emit wave "lane.parked" [("lane_id", .str laneId),
          ("reason", .str "ok_content_disagree"), ("ok", .bool ok), ("tip", .str tip)]
        return some event
      else if !ok then
        let event ← emit wave "lane.failed" [("lane_id", .str laneId),
          ("reason", .str "lane_failed"), ("detail", optionalStr lane.detail)]
        return some event
      else return none
  | _, _ => .raise .type

/-! ## Integration -/

/-- `_ensure_wave_ref` -/
def ensureWaveRef (ref base : String) : SupervisorM Unit := do
  let repo ← SupervisorOp.readRepo.run
  if repo.isSymbolic ref then .raise (.supervisor "wave_ref_symbolic")
  else do
    let repo ← SupervisorOp.readRepo.run
    match repo.refTip ref with
    | some _ => return ()
    | none =>
      let created ← (SupervisorOp.updateRef ref base none).run
      if created then return ()
      else do
        let repo ← SupervisorOp.readRepo.run
        match repo.refTip ref with
        | some _ => return ()
        | none => .raise (.supervisor "wave_ref_create_failed")

/-- `_INTEGRATE_MESSAGE` -/
def integrateMessage : String :=
  "wave " ++ wave ++ ": integrate " ++ laneId

/-- The part of `_integrate` after the lane was found not to be in the wave. -/
def mergeLane (oldTip laneTip : String) : SupervisorM String := do
  let repo ← SupervisorOp.readRepo.run
  match repo.mergeTree oldTip laneTip with
  | .conflict => .raise (.supervisor "integration_conflict")
  | .failed => .raise (.supervisor "merge_tree_failed")
  | .clean tree =>
    if !isFullSha tree then .raise (.supervisor "merge_tree_invalid_result")
    else do
      let message := integrateMessage wave laneId
      let repo ← SupervisorOp.readRepo.run
      let currentTree := repo.treeOf oldTip
      let repo ← SupervisorOp.readRepo.run
      let currentSubject := repo.subjectOf oldTip
      if currentTree = some tree ∧ currentSubject = some message then return oldTip
      else
        match ← (SupervisorOp.commitTree tree [oldTip, laneTip] message).run with
        | none => .raise (.supervisor "commit_tree_failed")
        | some newTip =>
          let updated ← (SupervisorOp.updateRef (waveBranch wave) newTip (some oldTip)).run
          if updated then return newTip else .raise (.supervisor "wave_ref_cas_failed")

/-- `_integrate`: the commit of the wave branch that has the lane. -/
def integrate (wave base : String) (laneId : LaneId) (laneTip : String) : SupervisorM String := do
  ensureWaveRef (waveBranch wave) base
  let repo ← SupervisorOp.readRepo.run
  match repo.refTip (waveBranch wave) with
  | none => .raise (.supervisor "wave_ref_missing")
  | some oldTip =>
    let repo ← SupervisorOp.readRepo.run
    match repo.isAncestor base oldTip with
    | some false => .raise (.supervisor "wave_ref_base_mismatch")
    | none => .raise (.supervisor "wave_ref_read_failed")
    | some true =>
      let repo ← SupervisorOp.readRepo.run
      match repo.isAncestor laneTip oldTip with
      | some true => return oldTip
      | none => .raise (.supervisor "wave_ref_read_failed")
      | some false => mergeLane wave laneId oldTip laneTip

/-! ## One round -/

/-- The local variables of a round. -/
structure Round where
  events : List SupervisorEvent := []
  states : LaneStates
  pending : Nat := 0
  stopAdmitting : Bool := false

/-- How the body of a loop ends. -/
inductive Flow where
  /-- The round returns its events. -/
  | returned (r : Round)
  /-- The loop ends. -/
  | brk (r : Round)
  /-- The loop goes on with the next lane. -/
  | cont (r : Round)

/-- A loop over lanes; `returned` ends the whole round. -/
def forLanes {α : Type} (body : α → Round → SupervisorM Flow) :
    List α → Round → SupervisorM Flow
  | [], r => return .cont r
  | lane :: lanes, r => do
    match ← body lane r with
    | .returned r => return .returned r
    | .brk r => return .cont r
    | .cont r => forLanes body lanes r

variable (r : Round)

/-- Emit an event and note it. -/
def Round.emit (wave kind : String) (fields : Dict String Json) : SupervisorM Round := do
  let event ← Wave.emit wave kind fields
  return { r with events := r.events ++ [event] }

/-- Read the lanes again. -/
def Round.replay (wave : String) : SupervisorM Round := do
  let states ← replayNow wave
  return { r with states := states }

/-- Emit an event and read the lanes again. -/
def Round.record (wave kind : String) (fields : Dict String Json) :
    SupervisorM Round := do
  let r ← r.emit wave kind fields
  r.replay wave

/-- A deferred lane; no further lane is admitted in this round. -/
def Round.defer (wave : String) (laneId : LaneId) (reason : String) :
    SupervisorM Round := do
  match ← recordAdmissionDeferral wave laneId reason r.states with
  | some event =>
    let r ← Round.replay { r with events := r.events ++ [event] } wave
    return { r with stopAdmitting := true }
  | none => return { r with stopAdmitting := true }

/-- The event for an attempt that the executor has answered with `job`. -/
def Round.submitted (wave : String) (laneId : LaneId) (attempt : Int) (job : Json) :
    SupervisorM Round :=
  match job with
  | .obj _ =>
    r.record wave "lane.submitted"
      [("lane_id", .str laneId), ("attempt", .int attempt), ("job", job)]
  | _ =>
    r.record wave "lane.failed"
      [("lane_id", .str laneId), ("reason", .str "invalid_submit_result")]

/-- Ask for admission, submit an attempt and record what the executor has answered. -/
def Round.submit (ctx : SupervisorContext) (wave : String) (laneId : LaneId)
    (attempt : Int) (deferred : Round → Flow) : SupervisorM Flow := do
  match ← checkAdmission ctx laneId r.pending with
  | some ⟨false, reason⟩ =>
    let r ← r.defer wave laneId reason
    return deferred r
  | _ =>
    let job ← (SupervisorOp.submit laneId attempt).run
    let r ← Round.submitted { r with pending := r.pending + 1 } wave laneId attempt job
    return .cont r

/-- One lane of the frontier. -/
def submitReady (wave : String) (laneId : LaneId) (r : Round) :
    SupervisorM Flow := do
  let stop ← SupervisorOp.shouldStop.run
  if stop then return .returned r
  else if r.stopAdmitting then return .brk r
  else r.submit ctx wave laneId ((r.states.lane laneId).attempt + 1) .brk

/-- A lane whose attempt the executor has lost. -/
def retryLost (wave : String) (laneId : LaneId) (r : Round) :
    SupervisorM Flow := do
  let attempt := (r.states.lane laneId).attempt
  if attempt ≥ ctx.attemptBudget then
    let r ← r.record wave "lane.parked" [("lane_id", .str laneId),
      ("reason", .str "attempt_budget_exhausted"), ("attempt", .int attempt)]
    return .cont r
  else if r.stopAdmitting then return .cont r
  else r.submit ctx wave laneId (attempt + 1) .cont

/-- The fields of a collected result that are used: `ok`, `branch`, `tip` and `detail`. -/
def collectedResult (result : Json) : Option (Bool × String × String × String) :=
  match (result.get? "ok").bind Json.bool?, (result.get? "branch").bind Json.str?,
      (result.get? "tip").bind Json.str? with
  | some ok, some branch, some tip =>
    some (ok, branch, tip, ((result.get? "detail").bind Json.str?).getD "")
  | _, _, _ => none

/-- A lane whose attempt is done. -/
def collectDone (job : Json) (r : Round) : SupervisorM Flow := do
  let park (reason : String) : SupervisorM Flow := do
    let r ← r.record wave "lane.parked" [("lane_id", .str laneId), ("reason", .str reason)]
    return .cont r
  let result ← (SupervisorOp.collect job).run
  match collectedResult result with
  | none => park "invalid_collect_result"
  | some (ok, branch, tip, detail) =>
    let repo ← SupervisorOp.readRepo.run
    match pinCommit repo tip with
    | .error reason => park reason
    | .ok tip =>
      let r ← r.emit wave "lane.collected" [("lane_id", .str laneId),
        ("attempt", .int (r.states.lane laneId).attempt), ("ok", .bool ok), ("branch", .str branch),
        ("tip", .str tip), ("detail", .str detail)]
      let stop ← SupervisorOp.shouldStop.run
      if stop then return .returned r
      else
        let r ← r.replay wave
        return .cont r

/-- Poll one running lane. -/
def pollRunning (wave : String) (laneId : LaneId) (r : Round) :
    SupervisorM Flow := do
  let stop ← SupervisorOp.shouldStop.run
  if stop then return .returned r
  else if (r.states.lane laneId).state ≠ .running then return .cont r
  else
    match (r.states.lane laneId).job with
    | some (.obj job) =>
      let status ← (SupervisorOp.status (.obj job)).run
      if status = "queued" ∨ status = "running" then return .cont r
      else if status = "lost" then retryLost ctx wave laneId r
      else if status = "done" then collectDone wave laneId (.obj job) r
      else
        let r ← r.record wave "lane.failed"
          [("lane_id", .str laneId), ("reason", .str "invalid_executor_status")]
        return .cont r
    | _ =>
      let r ← r.record wave "lane.failed"
        [("lane_id", .str laneId), ("reason", .str "missing_job")]
      return .cont r

/-- The verdict of a gate with its reason; a malformed answer is a rejection. -/
def gateVerdict (result : Json) : Bool × String :=
  match (result.get? "ok").bind Json.bool? with
  | none => (false, "invalid_gate_result")
  | some ok =>
    match result.get? "reason" with
    | none => (ok, "")
    | some (.str reason) => (ok, reason)
    | some _ => (ok, "invalid_gate_result")

/-- The gate loop, with as many probes left as `probes` lacks to two. -/
def gateProbes (wave : String) (laneId : LaneId) :
    Nat → Int → LaneState → Round → SupervisorM Flow
  | 0, _, _, r => return .cont r
  | left + 1, probes, lane, r => do
    let result ← (SupervisorOp.gate laneId lane.tip).run
    let (ok, reason) := gateVerdict result
    if ok then
      let r ← r.emit wave "lane.gated" [("lane_id", .str laneId), ("ok", .bool true),
        ("reason", .str reason), ("tip", optionalStr lane.tip)]
      return .cont r
    else
      let probes := probes + 1
      let r ← r.emit wave "lane.gated" [("lane_id", .str laneId), ("ok", .bool false),
        ("probe", .int probes), ("reason", .str reason), ("tip", optionalStr lane.tip)]
      if probes = 2 then
        let r ← r.emit wave "lane.parked" [("lane_id", .str laneId),
          ("reason", .str "gate_failed_after_reprobe"), ("detail", .str reason)]
        let stop ← SupervisorOp.shouldStop.run
        if stop then return .returned r else return .cont r
      else
        let r ← r.replay wave
        let lane := (r.states.get? laneId).getD lane
        let stop ← SupervisorOp.shouldStop.run
        if stop then return .returned r else gateProbes wave laneId left probes lane r

/-- Gate one collected lane. -/
def gateCollected (wave base : String) (laneId : LaneId) (r : Round) : SupervisorM Flow := do
  let stop ← SupervisorOp.shouldStop.run
  let lane := r.states.lane laneId
  if stop then return .returned r
  else if lane.state ≠ .collected then return .cont r
  else
    match ← revalidateCollected wave base laneId lane with
    | some event =>
      let r ← Round.replay { r with events := r.events ++ [event] } wave
      return .cont r
    | none =>
      let probes := lane.gateProbes
      if probes ≥ 2 then
        let r ← r.record wave "lane.parked" [("lane_id", .str laneId),
          ("reason", .str "gate_failed_after_reprobe"),
          ("detail", .str (lane.gateReason.getD ""))]
        return .cont r
      else
        match ← gateProbes wave laneId (2 - probes).toNat probes lane r with
        | .returned r => return .returned r
        | .brk r | .cont r =>
          let r ← r.replay wave
          return .cont r

/-- Integrate one gated lane. -/
def integrateGated (wave base : String) (laneId : LaneId) (r : Round) : SupervisorM Flow := do
  let stop ← SupervisorOp.shouldStop.run
  let lane := r.states.lane laneId
  if stop then return .returned r
  else if lane.state ≠ .gated then return .cont r
  else
    match lane.tip with
    | none => .raise .type
    | some tip =>
      (integrate wave base laneId tip).attempt fun
        | .ok waveTip => do
          let r ← r.record wave "lane.integrated"
            [("lane_id", .str laneId), ("tip", .str tip), ("wave_tip", .str waveTip)]
          return .cont r
        | .error (.supervisor "wave_ref_cas_failed") => return .cont r
        | .error (.supervisor reason) => do
          let r ← r.record wave "lane.parked" [("lane_id", .str laneId), ("reason", .str reason)]
          return .cont r
        | .error x => .raise x

/-- Park one lane that a failed or parked ancestor blocks. -/
def parkBlocked (lane : LaneId × LaneId) (r : Round) : SupervisorM Flow := do
  if (r.states.lane lane.1).state ≠ .pending then return .cont r
  else
    let stop ← SupervisorOp.shouldStop.run
    if stop then return .returned r
    else
      let r ← r.record wave "lane.parked" [("lane_id", .str lane.1),
        ("reason", .str "blocked_by_ancestor"), ("blocker", .str lane.2)]
      return .cont r

/-- The states of the lanes of the spec as the scheduler takes them. -/
def schedulerStates (spec : WaveSpec) (states : LaneStates) : Dict LaneId LaneStatus :=
  spec.laneIds.map fun laneId => (laneId, (states.lane laneId).state)

/-- The number of lanes that own an executor job. -/
def runningLanes (spec : WaveSpec) (states : LaneStates) : Nat :=
  (schedulerStates spec states).countP fun s => decide (s.2 = .running)

/-- Go on with the next loop unless the round has returned. -/
def Flow.andThen (flow : Flow) (next : Round → SupervisorM Flow) : SupervisorM Flow :=
  match flow with
  | .returned r => return .returned r
  | .brk r | .cont r => next r

/-- The loops of a round, after the frontier is known. -/
def roundLoops (p : Prepared) (ready : List LaneId) (r : Round) :
    SupervisorM Flow := do
  let flow ← forLanes (submitReady ctx p.wave) ready r
  flow.andThen fun r => do
  let flow ← forLanes (pollRunning ctx p.wave) p.spec.laneIds r
  flow.andThen fun r => do
  let r ← r.replay p.wave
  let flow ← forLanes (gateCollected p.wave p.baseSha) p.spec.laneIds r
  flow.andThen fun r => do
  let r ← r.replay p.wave
  let candidates := p.spec.laneIds.filter fun laneId =>
    decide ((r.states.lane laneId).state = .gated ∨ (r.states.lane laneId).state = .integrated)
  let flow ← forLanes (integrateGated p.wave p.baseSha) (integrationOrder p.spec candidates) r
  flow.andThen fun r => do
  let r ← r.replay p.wave
  forLanes (parkBlocked p.wave) (blocked p.spec (schedulerStates p.spec r.states)) r

/-- One round of a prepared wave that nothing has refused. -/
def advance (p : Prepared) : SupervisorM (List SupervisorEvent) := do
  let states ← replayNow p.wave
  let available := ctx.width - runningLanes p.spec states
  let ready :=
    if available > 0 then frontier p.spec (schedulerStates p.spec states) (some available)
    else .ok []
  match ready with
  | .error _ =>
    let event ← emit p.wave "wave.refused" [("reason", .str "invalid_width")]
    return [event]
  | .ok ready =>
    match ← roundLoops ctx p ready { states := states } with
    | .returned r | .brk r | .cont r => return r.events

/-- A refused context: the refusal is recorded once in the journal of a wave that can have one. -/
def refuse (refusal : Refusal) : SupervisorM (List SupervisorEvent) := do
  let notDurable : SupervisorEvent := ⟨"wave.refused", refusal.fields, none, false⟩
  if refusal.retryable then return [notDurable]
  else
    match refusal.wave with
    | none => return [notDurable]
    | some wave =>
      if !isWaveId wave then return [notDurable]
      else
        let refused := match ← SupervisorOp.readJournal.run with
          | .ok events => events.any fun e => e.kind = "wave.refused"
          | .error _ => false
        if refused then return []
        else
          let event ← emit wave "wave.refused" refusal.fields
          return [event]

/-- `step`: advance one bounded wave round and return newly observed events. -/
def step : SupervisorM (List SupervisorEvent) := do
  match ← prepare ctx with
  | .error refusal => refuse refusal
  | .ok p =>
    match ← SupervisorOp.readJournal.run with
    | .error reason => return [⟨"wave.refused", [("reason", .str reason)], none, false⟩]
    | .ok events =>
      if events.any fun e => e.kind = "wave.refused" then return []
      else advance ctx p

end Workbay.Wave

/-!
## Supervisors over one wave

Any number of supervisors call `step` again and again on one journal and one repository, and may die
and be started again at any point. The executor and the gate answer what they like. Others push
commits and move references, but the wave branch only moves forward.

An append to the journal is one step here; the journal itself makes it so.
-/

namespace Workbay.Wave

open Effects Git

/-! ## The repository -/

/-- What others do to the repository. -/
inductive RepoMove where
  | commit (oid tree : String) (parents : List String) (message : String)
  | tag (oid target : String)
  | moveRef (ref new : String)
deriving DecidableEq

/-- Whether a branch may move to a commit: the wave branch never goes back. -/
def mayMove (repo : Repo) (wave ref new : String) : Bool :=
  decide (ref ≠ waveBranch wave) ||
    (repo.refTip ref).all fun old => repo.graph.isAncestorOrEqual old new

/-- The repository after a move. -/
def RepoMove.apply (wave : String) (repo : Repo) : RepoMove → Option Repo
  | .commit oid tree parents message => repo.commitTree oid tree parents message
  | .tag oid target =>
    if ¬ repo.graph.Contains oid ∧ repo.tags.get? oid = none then
      some { repo with tags := repo.tags.set oid target }
    else none
  | .moveRef ref new =>
    if h : repo.graph.Contains new then
      if mayMove repo wave ref new then some (repo.setRef ref new h) else none
    else none

/-! ## The world -/

/-- What has been asked of the executor, with the length of the journal at that time. -/
inductive ExecutorCall where
  | submit (laneId : LaneId) (attempt : Int) (journaled : Nat)
  | status (job : Json) (report : String)
deriving DecidableEq

/-- The world of the supervisors `ι`. Besides the repository and the journal it notes the calls of
the executor, newest first; for each supervisor the lanes for which another one has appended since
its step began; and whether a supervisor has ever appended for such a lane. -/
structure SupervisorWorld (ι : Type) where
  repo : Repo
  journal : List JournalEvent
  calls : List ExecutorCall
  touched : ι → List LaneId
  raced : Bool

/-- The lane that an event is about. -/
def laneOf (fields : Dict String Json) : Option LaneId :=
  match fields.get? "lane_id" with
  | some (.str laneId) => some laneId
  | _ => none

/-- What the world alone does not determine. -/
inductive SupervisorChoice where
  | plain
  | fail (reason : String)
  | oid (commit : String)
  | time (now commit : String)
  | flag (b : Bool)
  | decision (d : Option AdmissionDecision)
  | value (v : Json)
  | report (s : String)
deriving DecidableEq

namespace SupervisorWorld

variable {ι : Type} [DecidableEq ι]

/-- Note that `i` has appended for a lane. -/
def noteAppend (w : SupervisorWorld ι) (i : ι) (laneId : LaneId) : SupervisorWorld ι :=
  { w with
    touched := fun j => if j = i then w.touched j else laneId :: w.touched j
    raced := w.raced || decide (laneId ∈ w.touched i) }

/-- Append an event of `i`: what the journal reports, and the world it leaves. -/
def append (os : Platform) (wave : String) (i : ι) (w : SupervisorWorld ι) (kind : String)
    (fields : Dict String Json) (seq : Nat) (parent : Option String) (now commit : String) :
    AppendResult × SupervisorWorld ι :=
  let request : AppendRequest :=
    { wave, kind, fields, producer := supervisorProducer wave, producerSeq := seq,
      causalParent := parent }
  let (result, journal) := appendTo os request now commit w.journal
  match result, laneOf fields with
  | .appended .., some laneId => (result, { w.noteAppend i laneId with journal := journal })
  | _, _ => (result, { w with journal := journal })

end SupervisorWorld

/-- How the operations of the supervisor `i` act. -/
def SupervisorOp.act {ι : Type} [DecidableEq ι] (os : Platform) (wave : String) (i : ι) :
    Action SupervisorOp SupervisorOp.Answer (SupervisorWorld ι) SupervisorChoice
  | .readRepo, .plain, w => some (w.repo, w)
  | .commitTree tree parents message, .oid commit, w =>
    (w.repo.commitTree commit tree parents message).map fun repo =>
      (some commit, { w with repo := repo })
  | .commitTree .., .fail _, w => some (none, w)
  | .updateRef ref new old, .plain, w =>
    match w.repo.updateRef ref new old with
    | some repo => some (true, { w with repo := repo })
    | none => some (false, w)
  | .updateRef .., .fail _, w => some (false, w)
  | .readJournal, .plain, w =>
    if maxEventsDefault < w.journal.length then some (.error "truncated", w)
    else some (.ok w.journal, w)
  | .readJournal, .fail reason, w => some (.error reason, w)
  | .append kind fields seq parent, .time now commit, w =>
    some (w.append os wave i kind fields seq parent now commit)
  | .append .., .fail reason, w => some (.refused reason, w)
  | .shouldStop, .flag b, w => some (b, w)
  | .admission .., .decision d, w => some (d, w)
  | .submit laneId attempt, .value v, w =>
    some (v, { w with calls := .submit laneId attempt w.journal.length :: w.calls })
  | .status job, .report s, w => some (s, { w with calls := .status job s :: w.calls })
  | .collect _, .value v, w => some (v, w)
  | .gate .., .value v, w => some (v, w)
  | _, _, _ => none

attribute [grind] SupervisorOp.act

/-- Supervisors of one wave with the same settings. -/
def supervisorSystem {ι : Type} [DecidableEq ι] (os : Platform) (ctx : SupervisorContext) :
    System ι Unit SupervisorOp SupervisorOp.Answer Failure (List SupervisorEvent)
      (SupervisorWorld ι) SupervisorChoice RepoMove where
  act := SupervisorOp.act os ctx.wave
  body _ _ := step ctx
  enter i _ w := { w with touched := Function.update w.touched i [] }
  env d w := (d.apply ctx.wave w.repo).map fun repo => { w with repo := repo }

/-- A state of the supervisors `ι`. -/
abbrev SupervisorConfig (ι : Type) :=
  Config ι SupervisorOp SupervisorOp.Answer Failure (List SupervisorEvent) (SupervisorWorld ι)

/-- Nothing has been journaled or asked of the executor yet. -/
def SupervisorWorld.IsNew {ι : Type} (w : SupervisorWorld ι) : Prop :=
  w.journal = [] ∧ w.calls = [] ∧ w.raced = false ∧ ∀ i, w.touched i = []

end Workbay.Wave
