import Workbay.RemoteJobs.Ledger
import Workbay.Effects.Loop
import Mathlib.Data.List.Sort
import Mathlib.Data.List.Lex
import Mathlib.Algebra.Order.Field.Rat

/-!
# The wake queue

A journal of complete lines with a cursor into it. A drain first tries the deferrals again and then
gives the lines past the cursor to a handler, one after the other. The cursor is written after each
line that is done with.
-/

namespace Workbay.RemoteJobs

open Effects (Turn loop)

/-- A complete line of the journal: the event that it decodes to, if it does. -/
abbrev WakeLine := Option WakeEvent

/-- The ledger, the journal and the cursor. No file holds `dropped`, the number of the lines that
compactions have removed. -/
structure WakeQueue where
  ledger : Ledger := {}
  lines : List WakeLine := []
  cursor : Nat := 0
  dropped : Nat := 0
deriving DecidableEq

/-- The lines past the cursor. -/
def WakeQueue.pending (q : WakeQueue) : List WakeLine := q.lines.drop q.cursor

/-- `_maintain_wake_journal`, where it is due: the lines before the cursor are removed. -/
def WakeQueue.maintain (isDue : Bool) (q : WakeQueue) : WakeQueue :=
  if isDue then
    { q with lines := q.pending, cursor := 0, dropped := q.dropped + q.cursor }
  else q

/-! ## The ledger -/

/-- `read_job` -/
def readJob (jobId : String) (ledger : Ledger) : Except LedgerError JobRecord :=
  if isJobId jobId then
    match ledger.jobs.get? jobId with
    | some record => .ok record
    | none => .error .jobNotFound
  else .error .invalidJobId

/-- The deferral that `_record_completion_deferral` writes -/
def nextDeferral (event : WakeEvent) (reason now : String) (record : JobRecord)
    (previous : Option Deferral) : Deferral where
  jobId := event.jobId
  reason := reason
  firstDeferredAt := (previous.map Deferral.firstDeferredAt).getD
    (record.completionDeferredAt.getD now)
  lastAttemptAt := now
  attempts := (previous.map Deferral.attempts).getD 0 + 1
  event := event

/-- `_record_completion_deferral`; no deadline is set for the locks of a drain. -/
def recordCompletionDeferral (event : WakeEvent) (reason now : String) (ledger : Ledger) :
    Ledger × Except LedgerError Unit :=
  match ledger.updateJob event.jobId { now } (JobRecord.completionDeferral reason now) with
  | (ledger', .error e) => (ledger', .error e)
  | (ledger', .ok record) =>
    match ledger'.readDeferrals with
    | .error e => (ledger', .error e)
    | .ok records =>
      ({ ledger' with
          deferrals := records.set event.jobId
            (nextDeferral event reason now record (records.get? event.jobId)) }, .ok ())

/-- `_increment_deferred_attempts` -/
def incrementDeferredAttempts (jobId now : String) (ledger : Ledger) :
    Ledger × Except LedgerError Unit :=
  match ledger.readDeferrals with
  | .error e => (ledger, .error e)
  | .ok records =>
    match records.get? jobId with
    | none => (ledger, .ok ())
    | some deferred =>
      ({ ledger with
          deferrals := records.set jobId
            { deferred with attempts := deferred.attempts + 1, lastAttemptAt := now } }, .ok ())

/-! ## Drains -/

/-- How a handler ends: it returns, it raises `RemoteCompletionDeferred`, or it raises an exception
of which `_exception_reason` gives the reason. -/
inductive Outcome where
  | processed
  | deferred (reason : String)
  | failed (reason : String)
deriving DecidableEq

/-- What happens while a handler runs: calls on the ledger and lines that come to the journal. -/
structure Handling where
  calls : List Call := []
  appended : List WakeLine := []
  outcome : Outcome := .processed

/-- The arguments of `drain_wake`. A handler and a stop callback may answer differently each time:
they are given the number of the calls before. Whether maintenance is due, before the drain and after
it, depends on the size of the journal. -/
structure DrainCall where
  handler : Nat → WakeEvent → Ledger → Handling
  maxEvents : Option Nat := none
  shouldStop : Nat → Bool := fun _ => false
  deferralMaxAge : ℚ := 6 * 60 * 60
  clock : Nat → String := fun _ => ""
  isDueBefore : Bool := false
  isDueAfter : Bool := false

/-- A failure that a drain reports. -/
structure Failure where
  jobId : String
  attempts : Nat
  reason : String
deriving DecidableEq

/-- A deferral that is older than it should be. -/
structure Stalled where
  reason : String
  ageSeconds : ℚ
  deferredAt : String
deriving DecidableEq

/-- What a drain returns. -/
structure DrainResult where
  processed : Nat := 0
  deadLettered : Nat := 0
  failure : Option Failure := none
  invalidLines : Nat := 0
  deferred : Dict String String := []
  completionStalled : Dict String Stalled := []
deriving DecidableEq

/-- The variables of a drain: `used` is the budget that is used, `handled` and `checks` count the
calls of the handler and of the stop callback. -/
structure Drain where
  queue : WakeQueue
  result : DrainResult := {}
  used : Nat := 0
  handled : Nat := 0
  checks : Nat := 0
  reexamined : List String := []

namespace Drain

variable (d : Drain)

/-- The stop callback was asked. -/
def checked : Drain := { d with checks := d.checks + 1 }

/-- The budget is used. -/
def spend : Drain := { d with used := d.used + 1 }

/-- The cursor is written after a line. -/
def pass : Drain := { d with queue.cursor := d.queue.cursor + 1 }

/-- One more is processed. -/
def processed : Drain := { d with result.processed := d.result.processed + 1 }

/-- A line that cannot be decoded is counted. -/
def invalid : Drain := { d with result.invalidLines := d.result.invalidLines + 1 }

/-- One more is dead. -/
def deadLettered : Drain :=
  { d with result.deadLettered := d.result.deadLettered + 1 }

/-- A failure is reported. -/
def failed (jobId reason : String) (attempts : Nat) (d : Drain) : Drain :=
  { d with result.failure := some ⟨jobId, attempts, reason⟩ }

/-- A job was looked at in this drain. -/
def reexamine (jobId : String) (d : Drain) : Drain :=
  { d with reexamined := jobId :: d.reexamined }

/-- An operation on the ledger, and what follows unless it raises. -/
def perform {α : Type} (op : Ledger → Ledger × Except LedgerError α) (d : Drain)
    (next : α → Drain → Turn Drain LedgerError) : Turn Drain LedgerError :=
  match op d.queue.ledger with
  | (ledger, .error e) => .raised { d with queue.ledger := ledger } e
  | (ledger, .ok a) => next a { d with queue.ledger := ledger }

end Drain

namespace DrainCall

variable (c : DrainCall)

/-- `budget_used >= max_events` -/
def isUsedUp (d : Drain) : Bool := c.maxEvents.any fun n => decide (n ≤ d.used)

variable (event : WakeEvent)

/-- What the handler does with an event. -/
def handling (d : Drain) : Handling :=
  c.handler d.handled event d.queue.ledger

/-- The handler is called. -/
def handle (d : Drain) : Drain :=
  { d with
    queue.ledger := machine.run d.queue.ledger (c.handling event d).calls
    queue.lines := d.queue.lines ++ (c.handling event d).appended
    handled := d.handled + 1 }

/-- The clock of a drain. -/
def now (d : Drain) : String := c.clock d.handled

/-! ### Deferrals -/

/-- The handler is called for a deferral. -/
def retryOpen (jobId : String) (event : WakeEvent) (d : Drain) :
    Turn Drain LedgerError :=
  match (c.handling event d).outcome with
  | .processed =>
    (c.handle event d).perform (Ledger.removeCompletionDeferral jobId) fun _ d => .next d.processed
  | .deferred reason =>
    (c.handle event d).perform (recordCompletionDeferral event reason (c.now d)) fun _ d => .next d
  | .failed reason =>
    (c.handle event d).perform (incrementDeferredAttempts jobId (c.now d)) fun _ d' =>
      d'.perform (recordHandlerFailure jobId reason { now := c.now d }) fun record d =>
        if maxHandlerAttempts ≤ record.attempts then .next d.deadLettered
        else .next (d.failed jobId reason record.attempts)

/-- The loop over the deferrals -/
def retry (entry : String × Deferral) (d : Drain) : Turn Drain LedgerError :=
  if c.isUsedUp d then .leave d
  else if c.shouldStop d.checks then .leave d.checked
  else
    match readJob entry.1 d.queue.ledger with
    | .error .jobNotFound => .next d.checked
    | .error e => .raised d.checked e
    | .ok saved =>
      if saved.stage = .completed ∨ saved.stage = .deadLetter then
        d.checked.perform (Ledger.removeCompletionDeferral entry.1) fun _ d => .next d
      else c.retryOpen entry.1 entry.2.event d.checked.spend

/-! ### Lines -/

/-- The handler is called for a line. -/
def deliverOpen (d : Drain) : Turn Drain LedgerError :=
  match (c.handling event d).outcome with
  | .processed => .next (c.handle event d).pass.processed.spend
  | .deferred reason =>
    (c.handle event d).perform (recordCompletionDeferral event reason (c.now d)) fun _ d =>
      .next (d.reexamine event.jobId).pass.spend
  | .failed reason =>
    (c.handle event d).perform (recordHandlerFailure event.jobId reason { now := c.now d })
      fun record d =>
        if maxHandlerAttempts ≤ record.attempts then .next d.pass.processed.spend.deadLettered
        else .leave (d.failed event.jobId reason record.attempts)

/-- A line that was decoded. -/
def deliverEvent (d : Drain) : Turn Drain LedgerError :=
  match readJob event.jobId d.queue.ledger with
  | .ok saved =>
    if saved.stage = .deadLetter then .next d.pass.processed.spend
    else if event.jobId ∈ d.reexamined then .next d.pass.spend
    else c.deliverOpen event d
  | .error .jobNotFound =>
    if event.jobId ∈ d.reexamined then .next d.pass.spend else c.deliverOpen event d
  | .error e => .raised d e

/-- The loop over the lines -/
def deliver (line : WakeLine) (d : Drain) : Turn Drain LedgerError :=
  if c.isUsedUp d then .leave d
  else if c.shouldStop d.checks then .leave d.checked
  else
    match line with
    | none => .next d.checked.invalid.pass.processed.spend
    | some event => c.deliverEvent event d.checked

/-! ### The whole drain -/

/-- The order in which deferrals are tried: by the time that the text of the last attempt names, the
number of the attempts and the job. -/
def isDueFirst (timestamp : String → ℚ) (a b : String × Deferral) : Bool :=
  if timestamp a.2.lastAttemptAt = timestamp b.2.lastAttemptAt then
    if a.2.attempts = b.2.attempts then decide (a.1 ≤ b.1)
    else decide (a.2.attempts < b.2.attempts)
  else decide (timestamp a.2.lastAttemptAt < timestamp b.2.lastAttemptAt)

/-- The deferrals in that order -/
def due (timestamp : String → ℚ) (deferrals : Dict String Deferral) : Dict String Deferral :=
  deferrals.insertionSort fun a b => isDueFirst timestamp a b = true

/-- The deferrals are tried again. -/
def retryAll (timestamp : String → ℚ) (deferrals : Dict String Deferral)
    (q : WakeQueue) : Turn Drain LedgerError :=
  loop c.retry (due timestamp deferrals) { queue := q, reexamined := deferrals.map Prod.fst }

/-- The body of the `try` of `drain_wake`, after maintenance; the journal is read before the
deferrals are tried again. -/
def body (timestamp : String → ℚ) (q : WakeQueue) : Turn Drain LedgerError :=
  match q.ledger.readDeferrals with
  | .error e => .raised { queue := q } e
  | .ok deferrals => (c.retryAll timestamp deferrals q).andThen (loop c.deliver q.pending)

end DrainCall

variable (timestamp : String → ℚ)

/-- The age of a deferral -/
def age (now : String) (deferred : Deferral) : ℚ :=
  max 0 (timestamp now - timestamp deferred.firstDeferredAt)

/-- `_report_completion_deferrals`, of the deferrals that it reads -/
def DrainResult.report (now : String) (maxAge : ℚ)
    (deferrals : Dict String Deferral) (result : DrainResult) : DrainResult :=
  { result with
    deferred := deferrals.map fun entry => (entry.1, entry.2.reason)
    completionStalled :=
      (deferrals.filter fun entry => decide (maxAge ≤ age timestamp now entry.2)).map fun entry =>
        (entry.1, ⟨entry.2.reason, age timestamp now entry.2, entry.2.firstDeferredAt⟩) }

/-- The `finally` of `drain_wake` -/
def DrainCall.finish (c : DrainCall) (timestamp : String → ℚ) (turn : Turn Drain LedgerError) :
    WakeQueue × Except LedgerError DrainResult :=
  match turn.state.queue.ledger.readDeferrals with
  | .error e => (turn.state.queue, .error e)
  | .ok deferrals =>
    (turn.state.queue.maintain c.isDueAfter,
      match turn with
      | .next d | .leave d =>
        .ok (d.result.report timestamp (c.now d) c.deferralMaxAge deferrals)
      | .raised _ e => .error e)

/-- `drain_wake` -/
def drainWake (c : DrainCall) (q : WakeQueue) :
    WakeQueue × Except LedgerError DrainResult :=
  c.finish timestamp (c.body timestamp (q.maintain c.isDueBefore))

/-! ## Runs -/

/-- What happens to a wake queue. -/
inductive WakeOp where
  /-- A call on the ledger. -/
  | call (c : Call)
  /-- Someone appends a line. -/
  | append (line : WakeLine)
  /-- `read_pending_wakes`, where maintenance is due. -/
  | maintain
  | drain (c : DrainCall)

/-- The queue after an operation. -/
def WakeOp.next (q : WakeQueue) : WakeOp → WakeQueue
  | .call c => { q with ledger := machine.next q.ledger c }
  | .append line => { q with lines := q.lines ++ [line] }
  | .maintain => q.maintain true
  | .drain c => (drainWake timestamp c q).1

/-- The queue after some operations. -/
def runWake (q : WakeQueue) (ops : List WakeOp) : WakeQueue :=
  ops.foldl (WakeOp.next timestamp) q

end Workbay.RemoteJobs
