import Workbay.Queue.Burst

/-!
# The lane queue: the files of its jobs

Whether a job waits is read from its `state.json` and its `done.json`. Here the operations of a
pass that read or write these files act on them; the others may answer anything. Before each
operation other programs may submit, change and finish jobs, but they put no job of the snapshot
back into the queue.
-/

namespace Workbay.Queue

open Effects

/-- The object in a `state.json`, as far as a pass reads it. -/
structure JobRecord where
  state : Reading
  /-- `_queued_at` -/
  queuedAt : Option ℚ
  unit : Reading

/-- A `state.json`. -/
inductive StateFile where
  | missing
  | malformed
  | object (record : JobRecord)

/-- The files of a job. -/
structure JobFile where
  state : StateFile
  /-- `done.json` exists. -/
  done : Bool := false
  /-- No link stands in the place of `done.json`, and `stdout` is missing or a regular file that
  can be read. -/
  certifiable : Bool := true

namespace JobFile

variable (f : JobFile)

/-- The job is out of the queue. -/
def out : Bool :=
  f.done || match f.state with
    | .missing => true
    | .malformed => false
    | .object latest => !latest.state.equals (.str "queued")

/-- `_write_done` -/
def writeDone : JobFile := { f with done := f.done || f.certifiable }

/-- The record with another state. -/
def withState (state : String) : JobFile :=
  match f.state with
  | .object latest => { f with state := .object { latest with state := .str state } }
  | _ => f

/-- `_current_queued_eligibility` -/
def currentQueuedEligibility (maxWait clock : ℚ) : Eligibility × JobFile :=
  match f.state with
  | .missing | .malformed => (.refused "vm_queue_job_state_unreadable", f)
  | .object latest =>
    if !latest.state.equals (.str "queued") || f.done then (.gone, f)
    else match latest.queuedAt with
      | none => (.refused "vm_queue_wait_unmeasured", f)
      | some queuedAt =>
        if maxWait < max 0 (clock - queuedAt) then (.gone, f.writeDone)
        else (.queued ⟨latest.unit⟩, f)

end JobFile

/-- `latest is not None or reason is not None` -/
def Eligibility.keepsRow : Eligibility → Bool
  | .gone => false
  | _ => true

/-- How a start script ends. -/
inductive ScriptEnd where
  | timedOut
  | failed (reason : String)
  | returned

/-- The state of a job that is still launching when its script has ended. -/
def ScriptEnd.state : ScriptEnd → String
  | .timedOut => "launching"
  | .failed _ => "queued"
  | .returned => "submitted"

/-- Why a start script has failed. -/
def ScriptEnd.refusal : ScriptEnd → Option String
  | .timedOut => some "vm_queue_start_timeout"
  | .failed reason => some reason
  | .returned => none

/-- What an operation meets. -/
structure Choice where
  /-- What other programs have written before. -/
  others : String → Option JobFile := fun _ => none
  clock : ℚ
  /-- The answers that do not come from the files of a job. -/
  answer : (op : DrainOp) → op.Answer
  /-- Why the locks are not free, or there is no start script. -/
  blocked : Option String := none
  /-- The budget is over before the launch. -/
  exhausted : Bool := false
  /-- Why the intent to launch is taken back. -/
  withdrawn : Option String := none
  /-- The files of the job when its start script has ended. -/
  left : JobFile
  ending : ScriptEnd
  /-- Why the publication lock is not taken again. -/
  fenced : Option String := none

/-- The jobs on disk, and what has been done to them. -/
structure JobFiles where
  file : String → JobFile
  /-- The jobs whose start script has been run. -/
  started : List String := []
  /-- The jobs that have waited too long but have got no `done.json`. -/
  uncertified : List String := []

/-- Why a job cannot be launched under its unit. -/
def JobState.unitRefusal (state : JobState) : Option String :=
  match state.unit with
  | .str unit =>
    if unit = "" ∨ '\x00' ∈ unit.toList then some "vm_queue_unit_unknown" else none
  | _ => some "vm_queue_unit_unknown"

/-- The files of a job are settled when its script has ended and it is still launching. -/
def JobFile.settle (f : JobFile) (ending : ScriptEnd) : JobFile :=
  match f.state with
  | .object latest =>
    if latest.state.equals (.str "launching") then f.withState ending.state else f
  | _ => f

/-- The start script is run. It does not put its own job back into the queue. -/
def Choice.spawn (c : Choice) (f : JobFile) : (Bool × Option String) × JobFile :=
  let left := if c.left.out then c.left else f.withState "launching"
  match c.ending.refusal, c.fenced with
  | none, some _ => ((true, none), left)
  | some _, some reason => ((false, some reason), left)
  | refusal, none => ((refusal.isNone, refusal), left.settle c.ending)

namespace JobFiles

variable (w : JobFiles)

/-- The files of a job are written. -/
def put (job : String) (f : JobFile) : JobFiles :=
  { w with file := Function.update w.file job f }

/-- Other programs write. -/
def interfere (snapshot : List String) (others : String → Option JobFile) : JobFiles where
  file job :=
    match others job with
    | some f => if job ∈ snapshot ∧ (w.file job).out ∧ !f.out then w.file job else f
    | none => w.file job
  started := w.started
  uncertified := w.uncertified

variable (maxWait : ℚ) (c : Choice) (job : String)

/-- `_current_queued_eligibility` of a job -/
def eligibility : Eligibility × JobFiles :=
  match (w.file job).currentQueuedEligibility maxWait c.clock with
  | (.gone, f) => (.gone, { w.put job f with
      uncertified := if f.out then w.uncertified else job :: w.uncertified })
  | (found, _) => (found, w)

/-- The rest of `_start` -/
def launch : (Bool × Option String) × JobFiles :=
  match c.blocked with
  | some reason => ((false, some reason), w)
  | none =>
    match w.eligibility maxWait c job with
    | (.refused reason, w) => ((false, some reason), w)
    | (.gone, w) => ((false, none), w)
    | (.queued latest, w) =>
      match if c.exhausted then some budgetExhausted else latest.unitRefusal <|> c.withdrawn with
      | some reason => ((false, some reason), w)
      | none =>
        let (answer, f) := c.spawn (w.file job)
        (answer, { w.put job f with started := job :: w.started })

/-- The operations of a pass whose answers come from the files of a job. -/
def perform : (op : DrainOp) → op.Answer × JobFiles
  | .lockedEligibility job =>
    match c.blocked with
    | some reason => (.error reason, w)
    | none =>
      let (found, w) := w.eligibility maxWait c job
      (.ok found, w)
  | .currentEligibility job => w.eligibility maxWait c job
  | .eligibleReservationRow job =>
    match c.blocked with
    | some _ => (true, w)
    | none =>
      let (found, w) := w.eligibility maxWait c job
      (found.keepsRow, w)
  | .launch job _ => w.launch maxWait c job
  | op => (c.answer op, w)

end JobFiles

/-- The operations of a pass over a snapshot. -/
def act (maxWait : ℚ) (snapshot : List String) :
    Action DrainOp DrainOp.Answer JobFiles Choice :=
  fun op c w => some ((w.interfere snapshot c.others).perform maxWait c op)

end Workbay.Queue
