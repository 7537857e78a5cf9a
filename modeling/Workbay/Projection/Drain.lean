import Workbay.Projection.Replay

/-!
# The drain of the spool

The live spool is claimed under a name of its own, and claims that earlier passes left are drained
with it. A rejected event goes back to the live spool with one more attempt, until its attempts are
used up and it is parked. A pass runs under the drain lock, with the breaker closed and no input
file.
-/

namespace Workbay.Projection

/-! ## Lines and entries -/

/-- A line of the spool: the object that it decodes to, if it does. -/
abbrev Line := Option Payload

/-- The event that is in a dead-letter row. -/
def nested? (row : Payload) : Option Payload :=
  match field row "payload" with
  | .obj payload => some payload
  | _ => none

/-- An entry as it is replayed: `_iter_replay_entries` unwraps dead-letter rows. -/
def unwrap (row : Payload) : Payload := (nested? row).getD row

/-- The entries of a file. -/
def readEntries (lines : List Line) : List Payload := (lines.filterMap id).map unwrap

/-- `_REPLAY_ATTEMPTS_KEY` -/
def replayAttemptsKey : String := "_replay_attempts"

variable (entry : Payload)

/-- `_entry_attempts`; truth values are integers. -/
def entryAttempts : Nat :=
  match field entry replayAttemptsKey with
  | .int attempts => attempts.toNat
  | .bool attempts => attempts.toNat
  | _ => 0

/-- `_without_attempts` -/
def withoutAttempts : Payload := Dict.pop entry replayAttemptsKey

/-- `_dedup_key` -/
def dedupKey (p : Platform) (entry : Payload) : IdempotencyKey :=
  p.eventIdempotencyKey (withoutAttempts entry)

/-- The entry with a count of attempts. -/
def withAttempts (attempts : Nat) : Payload :=
  entry.set replayAttemptsKey (.int attempts)

/-! ## Compaction -/

def isStateSync : Bool := decide (field entry "kind" = .str "state_sync")

/-- The task of an entry, if it names one. -/
def taskOf : Option String :=
  match field entry "task_ref" with
  | .str taskRef => if taskRef = "" then none else some taskRef
  | _ => none

/-- `latest_index_by_task`, and the number of the entries that it has lost -/
def noteLatest (latest : Dict String Nat × Nat) (entry : Payload × Nat) : Dict String Nat × Nat :=
  match isStateSync entry.1, taskOf entry.1 with
  | true, some taskRef =>
    (latest.1.set taskRef entry.2,
      if (latest.1.get? taskRef).isSome then latest.2 + 1 else latest.2)
  | _, _ => latest

def latestIndexByTask (entries : List Payload) : Dict String Nat × Nat :=
  entries.zipIdx.foldl noteLatest ([], 0)

/-- `_compact_state_sync`, without the count -/
def compactStateSync (entries : List Payload) : List Payload :=
  (entries.zipIdx.filter fun entry =>
    !isStateSync entry.1 || entry.2 ∈ (latestIndexByTask entries).1.map Prod.snd).map Prod.fst

/-! ## Passes -/

/-- What a pass may do. -/
structure Limits where
  maxAttempts : Nat
  /-- `max_entries` -/
  maxEntries : Option Nat := none
  /-- `max_seconds` have passed when the n-th entry is looked at -/
  timeUp : Nat → Bool := fun _ => false
  /-- `SPOOL_DEPTH_SUMMARY_LIMIT` -/
  depthLimit : Nat := 10000

/-- The status of an entry in the results. -/
inductive EntryStatus where
  | replayed (status : ReplayStatus)
  | skippedDuplicate
  | deadLettered
deriving DecidableEq

/-- What a pass keeps while it runs. -/
structure Pass where
  budgetLeft : Option Nat
  turns : Nat := 0
  replays : Nat := 0
  seen : List IdempotencyKey := []
  results : List (Payload × EntryStatus) := []
  remaining : List Payload := []
  skippedReason : Option String := none

/-- What an answer makes of an entry. -/
inductive Verdict where
  | done (status : EntryStatus)
  | again (attempts : Nat)
  | abort (reason : String)
deriving DecidableEq

/-- How the drain of a claim ends. -/
inductive Stop where
  | finished
  | exhausted
  | aborted
deriving DecidableEq

section

variable (p : Platform) (backend : Backend) (limits : Limits)

variable (pass : Pass)

/-- Why no further entry is looked at. -/
def exhaustion : Option String :=
  if pass.budgetLeft = some 0 then some "max_entries_exhausted"
  else if limits.timeUp pass.turns then some "max_seconds_exceeded"
  else none

/-- The replay of an entry, the n-th of the pass. -/
def replayVerdict (n : Nat) (entry : Payload) : Verdict :=
  match replayEntry p backend n entry with
  | .synced => .done (.replayed .synced)
  | .unsupported => .done (.replayed .unsupported)
  | .tombstonedArchived => .done (.replayed .tombstonedArchived)
  | .pending => .abort "handoff_cli_unreachable"
  | .spooled =>
    if limits.maxAttempts < entryAttempts entry + 1 then
      if backend.park n (withoutAttempts entry) then .done .deadLettered
      else .abort "dead_letter_sink_full"
    else .again (entryAttempts entry + 1)

/-- An entry of a known key. -/
def Pass.skip (entry : Payload) : Pass :=
  { pass with
    turns := pass.turns + 1
    results := pass.results ++ [(entry, .skippedDuplicate)] }

/-- An entry that was replayed. -/
def Pass.charge (entry : Payload) (status : EntryStatus) : Pass :=
  { pass with
    turns := pass.turns + 1
    replays := pass.replays + 1
    budgetLeft := pass.budgetLeft.map (· - 1)
    results := pass.results ++ [(entry, status)] }

/-- An entry that is done with. -/
def Pass.settle (entry : Payload) (status : EntryStatus) : Pass :=
  { pass.charge entry status with seen := dedupKey p entry :: pass.seen }

/-- An entry that is to be replayed again. -/
def Pass.requeue (entry : Payload) (attempts : Nat) : Pass :=
  { pass.charge entry (.replayed .spooled) with
    remaining := pass.remaining ++ [withAttempts entry attempts] }

/-- Entries that stay for a later pass. -/
def Pass.keep (entries : List Payload) (reason : String) : Pass :=
  { pass with remaining := pass.remaining ++ entries, skippedReason := some reason }

/-- The entries of a claim, one after the other. -/
def replayEntries : List Payload → Pass → Pass × Stop
  | [], pass => (pass, .finished)
  | entry :: rest, pass =>
    match exhaustion limits pass with
    | some reason => (pass.keep (entry :: rest) reason, .exhausted)
    | none =>
      if dedupKey p entry ∈ pass.seen then replayEntries rest (pass.skip entry)
      else match replayVerdict p backend limits pass.replays entry with
        | .done status => replayEntries rest (pass.settle p entry status)
        | .again attempts => replayEntries rest (pass.requeue entry attempts)
        | .abort reason =>
          ((pass.charge entry (.replayed .pending)).keep (entry :: rest) reason, .aborted)

/-! ## The spool -/

/-- A claimed file. -/
structure Claim where
  name : String
  lines : List Line

/-- The claims that were left, and the live spool. -/
structure Spool where
  orphans : List Claim := []
  live : Option (List Line) := none

/-- The entries of a claim. -/
def Claim.entries (claim : Claim) : List Payload := readEntries claim.lines

/-- The entries that are queued. -/
def Spool.entries (spool : Spool) : List Payload :=
  spool.orphans.flatMap Claim.entries ++ readEntries (spool.live.getD [])

/-- `_claim_snapshots`: the live spool is renamed to a fresh name, and drained last. -/
def Spool.claimSnapshots (spool : Spool) (name : String) : List Claim :=
  (spool.orphans.insertionSort fun a b => a.name ≤ b.name) ++
    (spool.live.map fun lines => Claim.mk name lines).toList

/-- `_append_to_live_spool` -/
def appendToLive (live : Option (List Line)) (entries : List Payload) : Option (List Line) :=
  if entries.isEmpty then live else some (live.getD [] ++ entries.map some)

/-- What a pass has come to. -/
structure Drained where
  spool : Spool
  pass : Pass
  stop : Stop
  skippedCorrupt : Nat
  compacted : Nat

/-- The claims, one after the other. -/
def drainClaims : List Claim → Drained → Drained
  | [], d => d
  | claim :: rest, d =>
    match replayEntries p backend limits (compactStateSync claim.entries)
        { d.pass with remaining := [] } with
    | (pass, .finished) =>
      drainClaims rest
        { spool := { d.spool with live := appendToLive d.spool.live pass.remaining }
          pass := pass
          stop := .finished
          skippedCorrupt := d.skippedCorrupt + claim.lines.count none
          compacted := d.compacted + (latestIndexByTask claim.entries).2 }
    | (pass, .exhausted) =>
      { spool := { orphans := rest, live := appendToLive d.spool.live pass.remaining }
        pass := pass
        stop := .exhausted
        skippedCorrupt := d.skippedCorrupt + claim.lines.count none
        compacted := d.compacted + (latestIndexByTask claim.entries).2 }
    | (pass, .aborted) =>
      { spool := { d.spool with
          orphans := { claim with lines := pass.remaining.map some } :: rest }
        pass := pass
        stop := .aborted
        skippedCorrupt := d.skippedCorrupt + claim.lines.count none
        compacted := d.compacted + (latestIndexByTask claim.entries).2 }

/-- One pass of `_drain`, over the claims under a fresh name for the live spool. -/
def drain (name : String) (spool : Spool) : Drained :=
  drainClaims p backend limits (spool.claimSnapshots name)
    { spool := {}
      pass := { budgetLeft := limits.maxEntries }
      stop := .finished
      skippedCorrupt := 0
      compacted := 0 }

end

/-! ## The receipt -/

/-- `handoff_projection` -/
inductive Projection where
  | synced
  | spooled
  | pending
deriving DecidableEq

/-- The receipt of a pass. -/
structure DrainReceipt where
  drained : Nat
  pendingRemaining : Nat
  pendingRemainingCapped : Bool
  replayResults : List (Payload × EntryStatus)
  handoffProjection : Projection
  skippedReason : Option String
  skippedCorrupt : Nat
  skippedDuplicate : Nat
  skippedUnsupported : Nat
  compacted : Nat
  deadLettered : Nat

/-- The number of the results with a status. -/
def Pass.countOf (pass : Pass) (status : EntryStatus) : Nat :=
  (pass.results.map Prod.snd).count status

/-- `_count_claim_entries` -/
def Claim.count (claim : Claim) : Nat := (claim.lines.filterMap id).length

/-- `_pending_remaining_from_spool` -/
def pendingFromSpool (depthLimit : Nat) (live : Option (List Line)) : Nat × Bool :=
  if (live.getD []).length ≤ depthLimit then ((live.getD []).length, false)
  else (max 1 depthLimit, true)

/-- `saw_spooled` -/
def Pass.sawSpooled (pass : Pass) : Bool :=
  decide (0 < pass.countOf (.replayed .spooled)) || decide (0 < pass.countOf .deadLettered)

/-- `handoff_projection` of a pass that was not aborted -/
def projectionOf (pendingRemaining : Nat) (sawSpooled : Bool) : Projection :=
  if pendingRemaining = 0 then .synced else if sawSpooled then .spooled else .pending

/-- `pending_remaining`, and whether it is a floor -/
def Drained.pendingRemaining (limits : Limits) (d : Drained) : Nat × Bool :=
  match d.stop with
  | .aborted => ((d.spool.orphans.map Claim.count).sum, false)
  | _ =>
    ((pendingFromSpool limits.depthLimit d.spool.live).1 + (d.spool.orphans.map Claim.count).sum,
      (pendingFromSpool limits.depthLimit d.spool.live).2)

/-- `_drain_receipt` -/
def Drained.receipt (limits : Limits) (d : Drained) : DrainReceipt where
  drained := d.pass.countOf (.replayed .synced)
  pendingRemaining := (d.pendingRemaining limits).1
  pendingRemainingCapped := (d.pendingRemaining limits).2
  replayResults := d.pass.results
  handoffProjection :=
    match d.stop with
    | .aborted => .pending
    | _ => projectionOf (d.pendingRemaining limits).1 d.pass.sawSpooled
  skippedReason := d.pass.skippedReason
  skippedCorrupt := d.skippedCorrupt
  skippedDuplicate := d.pass.countOf .skippedDuplicate
  skippedUnsupported := d.pass.countOf (.replayed .unsupported)
  compacted := d.compacted
  deadLettered := d.pass.countOf .deadLettered

end Workbay.Projection

/-!
## Passes in a row

A run is a list of passes, each with its own answers of the command line. Queued entries are measured
by the attempts that they are still allowed, and an entry is accounted for when it was replayed,
itself, under its key or through the later sync of its task that replaced it.
-/

namespace Workbay.Projection

/-! ## Runs -/

/-- What a pass is given. -/
structure PassInput where
  /-- The name that the live spool is claimed under -/
  name : String
  backend : Backend
  maxEntries : Option Nat := none
  timeUp : Nat → Bool := fun _ => false

/-- The limits of a pass. -/
def PassInput.limits (input : PassInput) (maxAttempts : Nat) : Limits :=
  { maxAttempts := maxAttempts, maxEntries := input.maxEntries, timeUp := input.timeUp }

/-- Every command of the pass runs, the sink takes what is parked, and the only bound is a budget of
at least one entry. -/
structure PassInput.Ready (input : PassInput) : Prop where
  reached : ∀ n command, unreachable (input.backend.run n command).returncode = false
  parked : ∀ n entry, input.backend.park n entry = true
  budget : input.maxEntries ≠ some 0
  untimed : ∀ n, input.timeUp n = false

/-- What one pass does. -/
def passOn (p : Platform) (maxAttempts : Nat) (spool : Spool) (input : PassInput) : Drained :=
  drain p input.backend (input.limits maxAttempts) input.name spool

/-- The spool after some passes. -/
def drainRun (p : Platform) (maxAttempts : Nat) (inputs : List PassInput) (spool : Spool) : Spool :=
  inputs.foldl (fun spool input => (passOn p maxAttempts spool input).spool) spool

/-- The entries that a pass has replayed. -/
def Pass.replayed (pass : Pass) : List Payload :=
  (pass.results.filter fun result => result.2 ≠ .skippedDuplicate).map Prod.fst

/-! ## What is queued -/

mutual

/-- The sum over an object, the object that it holds under `payload`, and so on. -/
def nestedSum (f : Payload → Nat) : Json → Nat
  | .obj members => f members + nestedSumOf f members
  | _ => 0

def nestedSumOf (f : Payload → Nat) : List (String × Json) → Nat
  | [] => 0
  | (key, value) :: members => if key = "payload" then nestedSum f value else nestedSumOf f members

end

/-- The sum over an entry and the events that are nested in it. -/
def entrySum (f : Payload → Nat) (entry : Payload) : Nat := nestedSum f (.obj entry)

/-- The attempts that an entry is still allowed. -/
def attemptsLeft (maxAttempts : Nat) (entry : Payload) : Nat :=
  maxAttempts - entryAttempts entry + 1

/-- The attempts that the queued entries are still allowed. -/
def Spool.attemptsLeft (maxAttempts : Nat) (spool : Spool) : Nat :=
  (spool.entries.map (entrySum (Projection.attemptsLeft maxAttempts))).sum

/-- The number of the queued entries, with those that are nested in them. -/
def Spool.size (spool : Spool) : Nat := (spool.entries.map (entrySum fun _ => 1)).sum

/-- No queued entry looks like a dead-letter row itself. -/
def Spool.Plain (spool : Spool) : Prop := ∀ entry ∈ spool.entries, nested? entry = none

/-! ## What has become of an entry -/

/-- A pass: the entries of each claim, and those that were replayed. -/
structure PassRecord where
  claims : List (List Payload)
  replayed : List Payload

/-- The record of a pass. -/
def recordOf (p : Platform) (maxAttempts : Nat) (spool : Spool) (input : PassInput) : PassRecord where
  claims := (spool.claimSnapshots input.name).map Claim.entries
  replayed := (passOn p maxAttempts spool input).pass.replayed

/-- The records of a run. -/
def recordsOf (p : Platform) (maxAttempts : Nat) : List PassInput → Spool → List PassRecord
  | [], _ => []
  | input :: inputs, spool =>
    recordOf p maxAttempts spool input ::
      recordsOf p maxAttempts inputs (passOn p maxAttempts spool input).spool

/-- Up to the count of its attempts, `entry` stands in the claim before `later`, which syncs the same
task. -/
def SupersededBy (claim : List Payload) (entry later : Payload) : Prop :=
  ∃ before queued after, claim = before ++ queued :: after ∧ later ∈ after ∧
    withoutAttempts queued = withoutAttempts entry ∧
    isStateSync queued = true ∧ isStateSync later = true ∧
    (taskOf queued).isSome = true ∧ taskOf queued = taskOf later

/-- An entry of the first of these passes was replayed in one of them, itself or under its key, or
was replaced by a later sync of its task that is accounted for. -/
inductive Accounted (p : Platform) : List PassRecord → Payload → Prop
  | replayed {pass : PassRecord} {passes : List PassRecord} {entry replayed : Payload}
      (hmem : replayed ∈ pass.replayed) (hkey : dedupKey p replayed = dedupKey p entry) :
      Accounted p (pass :: passes) entry
  | superseded {pass : PassRecord} {passes : List PassRecord} {claim : List Payload}
      {entry later : Payload} (hmem : claim ∈ pass.claims) (hlater : SupersededBy claim entry later)
      (h : Accounted p (pass :: passes) later) : Accounted p (pass :: passes) entry
  | kept {pass : PassRecord} {passes : List PassRecord} {entry : Payload}
      (h : Accounted p passes entry) : Accounted p (pass :: passes) entry

end Workbay.Projection
