import Workbay.Data.Json
import Mathlib.Data.Prod.Lex

/-!
# Representations of a legacy source

A source dispatch from before the rollout may be found twice, as a synchronous pass and as a detached
job. Records of one dispatch collapse into one; a record that shares an identity with a different one
is refused.
-/

namespace Workbay.Review

/-- The fields of an authenticated record, besides `kind` and `charged`, which are the same in all,
and the producer. -/
structure LegacyFacts where
  dispatchId : String
  passId : String
  subjectBranch : String
  taskRef : String
  laneId : String
  backend : Json
  model : String
  effort : String
  outcome : Json
  sourceHead : String
  sourceTree : String
  startedAt : String
  checkpointTip : Json
deriving DecidableEq

/-- `a == b` -/
def LegacyFacts.same (a b : LegacyFacts) : Bool :=
  decide (a.dispatchId = b.dispatchId) && decide (a.passId = b.passId) &&
    decide (a.subjectBranch = b.subjectBranch) && decide (a.taskRef = b.taskRef) &&
    decide (a.laneId = b.laneId) && a.backend.pyEq b.backend && decide (a.model = b.model) &&
    decide (a.effort = b.effort) && a.outcome.pyEq b.outcome &&
    decide (a.sourceHead = b.sourceHead) && decide (a.sourceTree = b.sourceTree) &&
    decide (a.startedAt = b.startedAt) && a.checkpointTip.pyEq b.checkpointTip

/-- The files that prove a record, and their hashes. -/
structure Producer where
  passState : String
  passStateSha256 : String
  provenance : String
  provenanceSha256 : String
  dispatchNonce : String
  agentSpec : String
  agentSpecSha256 : String
  agentArgv : String
  agentArgvSha256 : String
  /-- `job` and `job_sha256` -/
  job : Option (String × String) := none
  originalAgentStream : Option Json := none
deriving DecidableEq

/-- A record that was authenticated. -/
structure SourceRecord where
  facts : LegacyFacts
  producer : Producer
deriving DecidableEq

/-- A record with the producers of its other representations. -/
structure CollapsedSource where
  source : SourceRecord
  representations : List Producer := []
deriving DecidableEq

namespace SourceRecord

/-- The key by which records are sorted. -/
def key (s : SourceRecord) : String ×ₗ String := toLex (s.facts.startedAt, s.facts.dispatchId)

/-- Two records share an identity. -/
def shares (a b : SourceRecord) : Bool :=
  decide (a.facts.dispatchId = b.facts.dispatchId) || decide (a.facts.passId = b.facts.passId) ||
    decide (a.producer.dispatchNonce = b.producer.dispatchNonce)

/-- Two records are of one dispatch. -/
def agrees (a b : SourceRecord) : Bool :=
  a.facts.same b.facts && decide (a.producer.dispatchNonce = b.producer.dispatchNonce) &&
    decide (a.producer.provenanceSha256 = b.producer.provenanceSha256) &&
    decide (a.producer.agentSpecSha256 = b.producer.agentSpecSha256) &&
    decide (a.producer.agentArgvSha256 = b.producer.agentArgvSha256)

end SourceRecord

/-- One more representation. -/
def CollapsedSource.represent (prior : CollapsedSource) (producer : Producer) : CollapsedSource :=
  { prior with representations := prior.representations ++ [producer] }

/-- The loop over the records that are unique so far; `none` when the record is new to them. -/
def collapseInto (record : SourceRecord) :
    List CollapsedSource → Except String (Option (List CollapsedSource))
  | [] => .ok none
  | prior :: rest =>
    if record.shares prior.source then
      if record.agrees prior.source then .ok (some (prior.represent record.producer :: rest))
      else .error "review_ratchet_legacy_source_identity_mismatch"
    else (collapseInto record rest).map (Option.map (prior :: ·))

/-- One more record. -/
def collapseNext (unique : List CollapsedSource) (record : SourceRecord) :
    Except String (List CollapsedSource) :=
  match collapseInto record unique with
  | .error e => .error e
  | .ok none => .ok (unique ++ [{ source := record }])
  | .ok (some collapsed) => .ok collapsed

/-- `_deduplicate_legacy_sources` -/
def deduplicateLegacySources (records : List SourceRecord) :
    Except String (List CollapsedSource) :=
  (records.insertionSort fun a b => a.key ≤ b.key).foldlM collapseNext []

end Workbay.Review
