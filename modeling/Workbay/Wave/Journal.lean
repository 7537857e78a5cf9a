import Mathlib.Algebra.Group.Int.Defs
import Workbay.Data.Json
import Workbay.Effects.System
import Workbay.Git.Repo

/-!
# Append-only wave journals

Each event is a commit on the journal ref of its wave. A producer derives a stable event id from
its own sequence number, reads the chain, and publishes a commit with a compare-and-swap on the tip
it has read; it reads again and retries when the tip has moved.

`append` is a program over the git commands it runs. The commands that read and write the ref are
one atomic step each, so appends of any number of producers interleave between them.
-/

namespace Workbay.Wave

open Effects Git

/-- What the journal takes from its platform: SHA-256 in hexadecimal, and the reading of a
timestamp as a git date. -/
structure Platform where
  sha256 : String → String
  gitDate : String → Option String

/-- A journal validation or read failure with machine-readable details. -/
structure JournalError where
  field : String
  reason : String
deriving DecidableEq

/-- A versioned event envelope; the schema version is always 1. -/
structure JournalEvent where
  eventId : String
  wave : String
  kind : String
  producer : String
  producerSeq : Int
  causalParent : Option String
  ts : String
  fields : Dict String Json
deriving DecidableEq

/-! ## Validation -/

def isWaveChar (c : Char) : Bool :=
  decide (('a' ≤ c ∧ c ≤ 'z') ∨ ('0' ≤ c ∧ c ≤ '9') ∨ c = '.' ∨ c = '_' ∨ c = '-')

/-- A wave id suitable for use in a git ref. -/
def isWaveId (wave : String) : Bool :=
  let cs := wave.toList
  match cs with
  | [] => false
  | c :: rest =>
    decide (('a' ≤ c ∧ c ≤ 'z') ∨ ('0' ≤ c ∧ c ≤ '9')) && rest.all isWaveChar &&
      decide (rest.length ≤ 63) && !(cs.tails.any fun t => ['.', '.'].isPrefixOf t) &&
      !(".lock".toList.isSuffixOf cs) && !(['.'].isSuffixOf cs)

def validateWaveId (wave : String) : Except JournalError Unit :=
  if isWaveId wave then .ok () else .error ⟨"wave", "invalid_wave_id"⟩

variable (os : Platform)

/-- `_derive_event_id` -/
def deriveEventId (wave producer : String) (producerSeq : Int) : String :=
  let identity := wave ++ "\x1f" ++ producer ++ "\x1f" ++ toString producerSeq
  "e" ++ String.ofList ((os.sha256 identity).toList.take 24)

def validateProducerSeq (producerSeq : Int) : Except JournalError Unit :=
  if -(2 ^ 63) ≤ producerSeq ∧ producerSeq ≤ 2 ^ 63 - 1 then .ok ()
  else .error ⟨"producer_seq", "outside_sqlite_int64"⟩

/-- The date of the commit that carries a timestamp. -/
def gitDate (ts : String) : Except JournalError String :=
  match os.gitDate ts with
  | some date => .ok date
  | none => .error ⟨"ts", "invalid_timestamp"⟩

/-- The stable compact JSON text of an event. -/
def JournalEvent.toJson (e : JournalEvent) : String :=
  Json.dumps (.obj [
    ("schema_version", .int 1),
    ("event_id", .str e.eventId),
    ("wave", .str e.wave),
    ("kind", .str e.kind),
    ("producer", .str e.producer),
    ("producer_seq", .int e.producerSeq),
    ("causal_parent", match e.causalParent with | some p => .str p | none => .null),
    ("ts", .str e.ts),
    ("fields", .obj e.fields)])

/-- Whether two envelopes carry the same append; the timestamp counts only if it was supplied. -/
def sameAppendPayload (existing candidate : JournalEvent) (compareTs : Bool) : Bool :=
  decide (existing.eventId = candidate.eventId ∧ existing.wave = candidate.wave ∧
    existing.kind = candidate.kind ∧ existing.producer = candidate.producer ∧
    existing.producerSeq = candidate.producerSeq ∧
    existing.causalParent = candidate.causalParent ∧
    (compareTs = true → existing.ts = candidate.ts)) &&
  decide (Json.dumps (.obj existing.fields) = Json.dumps (.obj candidate.fields))

/-! ## Git commands -/

/-- What a journal commit carries. -/
structure StoredEvent where
  event : JournalEvent
  date : String
deriving DecidableEq

/-- The git commands behind an append, and the clock. -/
inductive JournalOp where
  /-- The current time in UTC. -/
  | utcNow
  /-- `symbolic-ref --quiet <ref>` -/
  | isSymbolicRef
  /-- `rev-parse --verify --quiet <ref>` -/
  | refExists
  /-- `rev-list --parents --max-count=<n> <ref>`: ids with their parents, newest first -/
  | revList (maxCount : Nat)
  /-- `cat-file --batch` of the `event.json` of the given commits -/
  | catBatch (commitIds : List String)
  /-- `rev-parse --show-object-format` -/
  | objectFormat
  /-- `hash-object`, `mktree` and `commit-tree`: store a commit, answer its id -/
  | commitTree (parent : Option String) (stored : StoredEvent)
  /-- `update-ref --no-deref <ref> <new> <old>`; no old value creates the ref -/
  | updateRef (newTip : String) (oldTip : Option String)

/-- The answers to the commands. -/
abbrev JournalOp.Answer : JournalOp → Type
  | .utcNow => String
  | .isSymbolicRef => Bool
  | .refExists => Bool
  | .revList _ => List (String × List String)
  | .catBatch _ => List JournalEvent
  | .objectFormat => String
  | .commitTree .. => String
  | .updateRef .. => Bool

/-- Programs over the journal's commands. -/
abbrev JournalM (α : Type) := Prog JournalOp JournalOp.Answer JournalError α

/-- Run one command. -/
abbrev JournalOp.run (op : JournalOp) : JournalM op.Answer := Prog.perform op

/-! ## Reading -/

/-- `_MAX_EVENTS_DEFAULT` -/
def maxEventsDefault : Nat := 100000

/-- Oldest first: every commit has the one before it as its only parent. The first one may have a
parent that was not listed. -/
def isLinear : List (String × List String) → Bool
  | [] => true
  | (first, parents) :: rest => decide (parents.length ≤ 1) && go first rest
where
  go (previous : String) : List (String × List String) → Bool
    | [] => true
    | (commit, parents) :: rest => decide (parents = [previous]) && go commit rest

/-- `_read_chain`: the commits of the journal with their events, oldest first. -/
def readChain (wave : String) (maxEvents : Nat) : JournalM (List (String × JournalEvent)) := do
  Prog.ofExcept (validateWaveId wave)
  let isThere ← JournalOp.refExists.run
  if !isThere then return []
  let output ← (JournalOp.revList (maxEvents + 1)).run
  let commits := output.reverse
  if !isLinear commits then .raise ⟨"chain", "non_linear"⟩
  else if commits.length > maxEvents then .raise ⟨"max_events", "truncated"⟩
  else if commits = [] then return []
  else do
    let commitIds := commits.map Prod.fst
    let contents ← (JournalOp.catBatch commitIds).run
    if contents.any fun event => event.wave ≠ wave then .raise ⟨"wave", "ref_event_mismatch"⟩
    else return commitIds.zip contents

/-! ## Appending -/

/-- The arguments of `append`. -/
structure AppendRequest where
  wave : String
  kind : String
  fields : Dict String Json
  producer : String
  producerSeq : Int
  causalParent : Option String := none
  ts : Option String := none
  maxRetries : Int := 8

/-- What `append` reports. -/
inductive AppendResult where
  | appended (eventId commit : String)
  | duplicate
  | refused (reason : String)
deriving DecidableEq

/-- A normalized event with the date of its commit. -/
structure NormalizedEvent where
  event : JournalEvent
  date : String
  tsWasProvided : Bool
  maxRetries : Nat

/-- The event of a request at a timestamp. -/
def AppendRequest.eventAt (r : AppendRequest) (ts : String) : JournalEvent where
  eventId := deriveEventId os r.wave r.producer r.producerSeq
  wave := r.wave
  kind := r.kind
  producer := r.producer
  producerSeq := r.producerSeq
  causalParent := r.causalParent
  ts := ts
  fields := r.fields

/-- `_normalize_append_event`, at the current time `now`. -/
def normalizeAppendEvent (r : AppendRequest) (now : String) :
    Except JournalError NormalizedEvent := do
  validateWaveId r.wave
  if r.maxRetries < 1 then .error ⟨"max_retries", "invalid_limit"⟩
  let timestamp := r.ts.getD now
  let date ← gitDate os timestamp
  validateProducerSeq r.producerSeq
  return ⟨r.eventAt os timestamp, date, r.ts.isSome, r.maxRetries.toNat⟩

/-- `_check_existing_event`: the verdict on an id that is already in the chain. -/
def checkExistingEvent (chain : List (String × JournalEvent)) (event : JournalEvent)
    (tsWasProvided : Bool) : Option AppendResult :=
  match (chain.filter fun item => item.2.eventId = event.eventId).getLast? with
  | none => none
  | some (_, existing) =>
    if sameAppendPayload existing event tsWasProvided then some .duplicate
    else some (.refused "event_id_conflict")

/-- `_publish_event_attempt`: the new tip, or `none` when the tip had moved. -/
def publishEventAttempt (oldTip : Option String) (stored : StoredEvent) :
    JournalM (Option String) := do
  if oldTip = none then
    let format ← JournalOp.objectFormat.run
    if format ≠ "sha1" ∧ format ≠ "sha256" then .raise ⟨"git", "unsupported_object_format"⟩
    else publish
  else publish
where
  publish : JournalM (Option String) := do
    let newTip ← (JournalOp.commitTree oldTip stored).run
    let published ← (JournalOp.updateRef newTip oldTip).run
    return if published then some newTip else none

/-- `_append_normalized`: the remaining attempts. -/
def appendAttempts (n : NormalizedEvent) : Nat → JournalM AppendResult
  | 0 => return .refused "cas_exhausted"
  | attempts + 1 => do
    let symbolic ← JournalOp.isSymbolicRef.run
    if symbolic then return .refused "symbolic_ref"
    else do
      let chain ← readChain n.event.wave maxEventsDefault
      match checkExistingEvent chain n.event n.tsWasProvided with
      | some result => return result
      | none =>
        if n.event.causalParent.any fun p => p ∉ chain.map fun item => item.2.eventId then
          return .refused "unknown_causal_parent"
        else do
          let oldTip := chain.getLast?.map Prod.fst
          match ← publishEventAttempt oldTip ⟨n.event, n.date⟩ with
          | some newTip => return .appended n.event.eventId newTip
          | none => appendAttempts n attempts

/-- `append`: a journal error becomes a refusal. -/
def append (os : Platform) (r : AppendRequest) : JournalM AppendResult :=
  Prog.attempt
    (do
      let now ← JournalOp.utcNow.run
      let n ← Prog.ofExcept (normalizeAppendEvent os r now)
      appendAttempts n n.maxRetries)
    fun
      | .ok result => .ret result
      | .error x => .ret (.refused x.reason)

/-- `append` as one step: what it reports, and the journal it leaves, where the new commit would be
`commit`. -/
def appendTo (r : AppendRequest) (now commit : String)
    (journal : List JournalEvent) : AppendResult × List JournalEvent :=
  match normalizeAppendEvent os r now with
  | .error x => (.refused x.reason, journal)
  | .ok n =>
    if maxEventsDefault < journal.length then (.refused "truncated", journal)
    else
      match checkExistingEvent (journal.map fun e => ("", e)) n.event n.tsWasProvided with
      | some result => (result, journal)
      | none =>
        if n.event.causalParent.any fun p => p ∉ journal.map JournalEvent.eventId then
          (.refused "unknown_causal_parent", journal)
        else (.appended n.event.eventId commit, journal ++ [n.event])

/-! ## The ref and its commits -/

/-- The commits of a repository and the journal ref of one wave. -/
structure JournalRepo where
  store : Dag String StoredEvent
  tip : Option String
  symbolic : Bool
  objectFormat : String

/-- The commits from one id along first parents, newest first, at most `n`. -/
def history (store : Dag String StoredEvent) :
    Nat → Option String → List (Node String StoredEvent)
  | 0, _ => []
  | _, none => []
  | n + 1, some commit =>
    match store.find? commit with
    | some node => node :: history store n node.parents.head?
    | none => []

namespace JournalRepo

/-- The whole journal, newest first. -/
def nodes (w : JournalRepo) : List (Node String StoredEvent) :=
  history w.store w.store.nodes.length w.tip

/-- The events of the journal in append order. -/
def journal (w : JournalRepo) : List JournalEvent := (w.nodes.map fun n => n.data.event).reverse

/-- Store a commit under an id. An id that is taken is the id of the same commit. -/
def addCommit (w : JournalRepo) (oid : String) (parent : Option String) (stored : StoredEvent) :
    Option JournalRepo :=
  let node : Node String StoredEvent := ⟨oid, parent.toList, stored⟩
  if node ∈ w.store.nodes then some w
  else (w.store.add? node).map fun store => { w with store := store }

end JournalRepo

/-- What the repository alone does not determine. -/
inductive JournalChoice where
  | plain
  /-- The compare-and-swap fails although the tip has not moved. -/
  | fail
  | time (now : String)
  | oid (commit : String)
deriving DecidableEq

/-- How the commands act. -/
def JournalOp.act : Action JournalOp JournalOp.Answer JournalRepo JournalChoice
  | .utcNow, .time now, w => some (now, w)
  | .isSymbolicRef, .plain, w => some (w.symbolic, w)
  | .refExists, .plain, w => some (w.tip.isSome, w)
  | .revList n, .plain, w => some ((history w.store n w.tip).map fun c => (c.id, c.parents), w)
  | .catBatch commitIds, .plain, w =>
    some ((commitIds.filterMap w.store.find?).map fun c => c.data.event, w)
  | .objectFormat, .plain, w => some (w.objectFormat, w)
  | .commitTree parent stored, .oid commit, w =>
    match w.addCommit commit parent stored with
    | some w' => some (commit, w')
    | none => none
  | .updateRef newTip oldTip, .plain, w =>
    if w.tip = oldTip ∧ w.store.Contains newTip then some (true, { w with tip := some newTip })
    else some (false, w)
  | .updateRef _ _, .fail, w => some (false, w)
  | _, _, _ => none

attribute [grind] JournalOp.act

/-- The repository, with a note of which call has moved the ref to which commit. -/
structure JournalWorld (ι : Type) where
  repo : JournalRepo
  published : List (ι × String)

namespace JournalWorld

variable {ι : Type}

def nodes (w : JournalWorld ι) : List (Node String StoredEvent) := w.repo.nodes

def journal (w : JournalWorld ι) : List JournalEvent := w.repo.journal

/-- The journal ref does not exist yet. -/
def IsNew (w : JournalWorld ι) : Prop :=
  w.repo.tip = none ∧ w.repo.symbolic = false ∧ w.published = []

end JournalWorld

/-- The commit to which a command has moved the ref. -/
def JournalOp.published : (op : JournalOp) → op.Answer → Option String
  | .updateRef newTip _, true => some newTip
  | _, _ => none

/-- How the commands of the call `i` act. -/
def JournalOp.actFor {ι : Type} (i : ι) :
    Action JournalOp JournalOp.Answer (JournalWorld ι) JournalChoice :=
  fun op c w =>
    match JournalOp.act op c w.repo with
    | some (a, repo) =>
      some (a, ⟨repo, ((op.published a).map fun commit => (i, commit)).toList ++ w.published⟩)
    | none => none

/-- Any number of producers that append to the journal of one wave, each call a process. -/
def journalSystem {ι : Type} (os : Platform) (wave : String) (requests : ι → AppendRequest) :
    System ι Unit JournalOp JournalOp.Answer JournalError AppendResult (JournalWorld ι)
      JournalChoice Empty where
  act := JournalOp.actFor
  body i _ := append os { requests i with wave := wave }
  enter _ _ w := w
  env d _ := nomatch d

end Workbay.Wave
