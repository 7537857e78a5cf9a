import Mathlib.Data.List.Dedup
import Mathlib.Data.List.Sort
import Mathlib.Data.String.Basic

/-!
# Completion contracts

A contract declares, for one generation of a lane, which findings, acceptance ids and test commands
its completion has to cover. These are its obligations.
-/

namespace Workbay.Completion

/-- `LaneIdentity` -/
structure LaneIdentity where
  repository : String
  taskRef : String
  laneId : String
  laneRowId : Int
  identitySeq : Option Int
  cycleId : Option String
  branch : String
  admissionBase : String
  productTip : String
  laneRevision : String
  taskRevision : String
deriving DecidableEq

/-- `AcceptanceVerifier` -/
structure AcceptanceVerifier where
  acceptanceId : String
  kind : String
  version : Int
  commandOrCheckId : String
  expectedOutcome : String
  artifactFormat : String
deriving DecidableEq

/-- `CompletionContract`; without finding ids or commands nothing is declared, with empty ones that
there are none. -/
structure CompletionContract where
  identity : LaneIdentity
  revision : Int
  contractHash : String
  objectiveHash : String
  findingIds : Option (List String)
  acceptanceIds : List String
  requiredCommands : Option (List String)
  approved : Bool
  exhaustive : Bool
  evidenceIds : List String
  nonTestAcceptanceId : Option String := none
  acceptanceVerifiers : List AcceptanceVerifier := []
deriving DecidableEq

/-- `ObligationKind` -/
inductive ObligationKind where
  | finding
  | acceptance
  | test
deriving DecidableEq

/-- `Obligation` -/
structure Obligation where
  kind : ObligationKind
  id : String
deriving DecidableEq

/-- `ObligationTransfer` -/
structure ObligationTransfer where
  predecessor : Obligation
  carrier : Obligation
deriving DecidableEq

/-- The obligations of three lists of ids. -/
def obligationsOf (findings acceptance tests : List String) : List Obligation :=
  findings.map (Obligation.mk .finding) ++ acceptance.map (Obligation.mk .acceptance)
    ++ tests.map (Obligation.mk .test)

/-- `_obligations` -/
def CompletionContract.obligations (c : CompletionContract) : List Obligation :=
  obligationsOf (c.findingIds.getD []) c.acceptanceIds (c.requiredCommands.getD [])

/-- `_lane_key` -/
def LaneIdentity.laneKey (i : LaneIdentity) : String × String × String :=
  (i.repository, i.taskRef, i.laneId)

/-- The row of the lane in the tables of its repository. -/
def LaneIdentity.rowKey (i : LaneIdentity) : String × Int := (i.repository, i.laneRowId)

theorem mem_obligationsOf {findings acceptance tests : List String} {o : Obligation} :
    o ∈ obligationsOf findings acceptance tests ↔
      match o.kind with
      | .finding => o.id ∈ findings
      | .acceptance => o.id ∈ acceptance
      | .test => o.id ∈ tests := by
  obtain ⟨kind, id⟩ := o
  cases kind <;> simp [obligationsOf]

end Workbay.Completion

/-!
## Completion rules

Pure rules over evidence that an adapter has verified. A lane is completed when its product,
findings, acceptance and tests are all proved for exactly its contract and target; it is superseded
when its obligations have been transferred, from lane to lane, to one that is completed.
-/

namespace Workbay.Completion

/-! ## Evidence -/

/-- `CompletionVerdict` -/
inductive CompletionVerdict where
  | completed
  | superseded
  | unfinishedNeverProduced
  | unfinishedPartial
  | unknown
deriving DecidableEq

/-- `CompletionPhase` -/
inductive CompletionPhase where
  | candidate
  | integration
deriving DecidableEq

/-- `EvidenceState` -/
inductive EvidenceState where
  | present
  | observedAbsent
  | unavailable
deriving DecidableEq

/-- `CompletionReason` -/
inductive CompletionReason where
  | identityInvalid
  | contractAbsent
  | contractInvalid
  | evidenceInvalid
  | targetMismatch
  | contradictoryEvidence
  | productUnproven
  | findingsUnproven
  | acceptanceUnproven
  | testsUnproven
  | completedIntegration
  | completedCandidate
  | carrierCompleted
  | carrierUnproven
  | transferUnauthenticated
  | transferCoverageIncomplete
  | carrierTargetMismatch
  | carrierCycle
  | carrierConflict
  | transferDepthExceeded
  | knownUnmet
  | neverProduced
  | someProduction
  | productionUnknown
  | unmetUnproven
deriving DecidableEq

/-- `ProductProofKind` -/
inductive ProductProofKind where
  | naturalLanding
  | integrationContent
  | candidateContent
deriving DecidableEq

/-- `CompletionTarget` -/
structure CompletionTarget where
  phase : CompletionPhase
  integrationRef : String
  integrationSha : String
  candidateSha : String
  mergeTreeOid : Option String := none
  landingSha : Option String := none
deriving DecidableEq

/-- `IdentityScopeEvidence` -/
structure IdentityScopeEvidence where
  identity : LaneIdentity
  contract : Option CompletionContract
  state : EvidenceState := .unavailable
  evidenceIds : List String := []
deriving DecidableEq

/-- `EvidenceBinding` -/
structure EvidenceBinding where
  identity : LaneIdentity
  contractRevision : Int
  contractHash : String
  target : CompletionTarget
deriving DecidableEq

/-- `PredicateEvidence` -/
structure PredicateEvidence where
  state : EvidenceState := .unavailable
  binding : Option EvidenceBinding := none
  evidenceIds : List String := []
deriving DecidableEq

/-- `ProductOnTargetEvidence` -/
structure ProductOnTargetEvidence extends PredicateEvidence where
  proofKind : Option ProductProofKind := none
deriving DecidableEq

/-- `FindingsAddressedEvidence` -/
structure FindingsAddressedEvidence extends PredicateEvidence where
  findingIds : List String := []
deriving DecidableEq

/-- `AcceptanceEvidence` -/
structure AcceptanceEvidence extends PredicateEvidence where
  acceptanceIds : List String := []
deriving DecidableEq

/-- `TestFreshnessEvidence` -/
structure TestFreshnessEvidence extends PredicateEvidence where
  commands : List String := []
deriving DecidableEq

/-- `KnownUnmetEvidence` -/
structure KnownUnmetEvidence extends PredicateEvidence where
  obligations : List Obligation := []
deriving DecidableEq

/-- `LaneCompletionEvidence` -/
structure LaneCompletionEvidence where
  identityScope : IdentityScopeEvidence
  target : CompletionTarget
  product : ProductOnTargetEvidence := {}
  findings : FindingsAddressedEvidence := {}
  acceptance : AcceptanceEvidence := {}
  tests : TestFreshnessEvidence := {}
  unmet : KnownUnmetEvidence := {}
  neverProduced : PredicateEvidence := {}
  someProduction : PredicateEvidence := {}
deriving DecidableEq

/-- `TransferEvidence` -/
structure TransferEvidence where
  source : LaneIdentity
  carrier : LaneIdentity
  sourceContractHash : String
  carrierContractHash : String
  mappings : List ObligationTransfer
  authenticated : Bool
  authorityId : String
  evidenceIds : List String
deriving DecidableEq

/-- `CarrierEvidence` -/
structure CarrierEvidence where
  lane : LaneCompletionEvidence
  assessmentId : String
  evidenceIds : List String
deriving DecidableEq

/-- `CompletionSnapshot` -/
structure CompletionSnapshot where
  lane : LaneCompletionEvidence
  carriers : List CarrierEvidence := []
  transfers : List TransferEvidence := []
  sourceHolds : List String := []
  custodyHolds : List String := []
  ancestryContained : Option Bool := none
  aheadOfIntegration : Option Int := none

/-- `CompletionAssessment` -/
structure CompletionAssessment where
  verdict : CompletionVerdict
  phase : CompletionPhase
  reasons : List CompletionReason
  evidenceIds : List String
  assessmentHash : String
  sourceHolds : List String
  custodyHolds : List String

namespace LaneCompletionEvidence

variable (lane : LaneCompletionEvidence)

/-- The identity of the lane. -/
abbrev identity : LaneIdentity := lane.identityScope.identity

/-- `_predicates` -/
def predicates : List PredicateEvidence :=
  [lane.product.toPredicateEvidence, lane.findings.toPredicateEvidence,
    lane.acceptance.toPredicateEvidence, lane.tests.toPredicateEvidence,
    lane.unmet.toPredicateEvidence, lane.neverProduced, lane.someProduction]

/-- `_obligations`, of a lane with a contract -/
def obligations : List Obligation :=
  match lane.identityScope.contract with
  | some c => c.obligations
  | none => []

/-- `_lane_evidence_ids` -/
def evidenceIds : List String :=
  lane.identityScope.evidenceIds
    ++ (lane.identityScope.contract.map CompletionContract.evidenceIds).getD []
    ++ lane.predicates.flatMap PredicateEvidence.evidenceIds

/-- The obligations that present evidence covers. -/
def fulfilled : List Obligation :=
  obligationsOf (if lane.findings.state = .present then lane.findings.findingIds else [])
    (if lane.acceptance.state = .present then lane.acceptance.acceptanceIds else [])
    (if lane.tests.state = .present then lane.tests.commands else [])

end LaneCompletionEvidence

/-! ## What a lane shows by itself -/

/-- `_identity_valid` -/
def identityValid (i : LaneIdentity) : Bool :=
  [i.repository, i.taskRef, i.laneId, i.branch, i.admissionBase, i.productTip, i.laneRevision,
      i.taskRevision].all (· ≠ "")
    && 0 < i.laneRowId && i.identitySeq.any (0 ≤ ·) && i.cycleId.all (· ≠ "")

/-- `_ids_valid`; ids that are not declared are not valid -/
def idsValid : Option (List String) → Bool
  | some ids => ids.all (· ≠ "") && decide ids.Nodup
  | none => false

/-- Two lists list the same ids. -/
def sameIds (xs ys : List String) : Bool := xs ⊆ ys && ys ⊆ xs

/-- `_verifiers_valid` -/
def verifiersValid (c : CompletionContract) : Bool :=
  c.acceptanceVerifiers.all (fun v => 0 < v.version
      && [v.acceptanceId, v.kind, v.commandOrCheckId, v.expectedOutcome, v.artifactFormat].all
        (· ≠ ""))
    && c.acceptanceVerifiers.length = c.acceptanceIds.length
    && sameIds (c.acceptanceVerifiers.map AcceptanceVerifier.acceptanceId) c.acceptanceIds

/-- The part of `_validate` that reads the contract. -/
def contractValid (i : LaneIdentity) (c : CompletionContract) : Bool :=
  c.identity = i && c.approved && c.exhaustive && 1 ≤ c.revision && c.contractHash ≠ ""
    && c.objectiveHash ≠ "" && c.evidenceIds ≠ [] && idsValid c.findingIds
    && idsValid (some c.acceptanceIds) && c.acceptanceIds ≠ [] && verifiersValid c
    && idsValid c.requiredCommands
    && (c.requiredCommands.any (· ≠ []) || c.nonTestAcceptanceId.any (· ∈ c.acceptanceIds))

/-- The part of `_validate` that reads the target. -/
def targetValid (i : LaneIdentity) (t : CompletionTarget) : Bool :=
  t.integrationRef ≠ "" && t.integrationSha ≠ "" && t.candidateSha ≠ ""
    && t.candidateSha = i.productTip

/-- The loop of `_validate` over the predicates: what is wrong with the first that is wrong. -/
def predicateFault (expected : EvidenceBinding) : List PredicateEvidence → Option CompletionReason
  | [] => none
  | p :: ps =>
    if ¬ idsValid (some p.evidenceIds) then some .evidenceInvalid
    else if p.binding.any (· ≠ expected) then some .targetMismatch
    else if p.state = .present ∧ (p.binding = none ∨ p.evidenceIds = []) then
      some .evidenceInvalid
    else predicateFault expected ps

variable (lane : LaneCompletionEvidence)

/-- `_validate` -/
def validate : Option CompletionReason :=
  let scope := lane.identityScope
  if ¬ identityValid scope.identity ∨ scope.state ≠ .present ∨ scope.evidenceIds = [] then
    some .identityInvalid
  else match scope.contract with
    | none => some .contractAbsent
    | some c =>
      if ¬ contractValid scope.identity c then some .contractInvalid
      else if ¬ targetValid scope.identity lane.target then some .targetMismatch
      else match predicateFault ⟨scope.identity, c.revision, c.contractHash, lane.target⟩
          lane.predicates with
        | some reason => some reason
        | none =>
          if lane.product.state = .present ∧ lane.product.proofKind = none then
            some .evidenceInvalid
          else if lane.unmet.state = .present
              ∧ (lane.unmet.obligations = [] ∨ ¬ lane.unmet.obligations ⊆ lane.obligations) then
            some .evidenceInvalid
          else if lane.neverProduced.state = .present
              ∧ (lane.someProduction.state = .present ∨ lane.product.state = .present) then
            some .contradictoryEvidence
          else if ¬ (idsValid (some lane.findings.findingIds)
              ∧ idsValid (some lane.acceptance.acceptanceIds)
              ∧ idsValid (some lane.tests.commands)) then
            some .evidenceInvalid
          else if lane.unmet.state = .present
              ∧ lane.fulfilled.any (· ∈ lane.unmet.obligations) then
            some .contradictoryEvidence
          else none

/-- The proofs of a product that a phase allows. -/
def allowedProofs : CompletionPhase → List ProductProofKind
  | .candidate => [.candidateContent]
  | .integration => [.naturalLanding, .integrationContent]

/-- A reason, if a check fails. -/
def reasonUnless (proved : Bool) (reason : CompletionReason) : List CompletionReason :=
  if proved then [] else [reason]

/-- `_direct_reasons`, of a lane with a contract -/
def directReasons (c : CompletionContract) :
    List CompletionReason :=
  reasonUnless (lane.product.state = .present
      && lane.product.proofKind.any (· ∈ allowedProofs lane.target.phase)) .productUnproven
  ++ reasonUnless (lane.findings.state = .present
      && sameIds lane.findings.findingIds (c.findingIds.getD [])) .findingsUnproven
  ++ reasonUnless (lane.acceptance.state = .present
      && sameIds lane.acceptance.acceptanceIds c.acceptanceIds) .acceptanceUnproven
  ++ reasonUnless (lane.tests.state = .present
      && sameIds lane.tests.commands (c.requiredCommands.getD [])) .testsUnproven

/-! ## The walk along the carriers -/

/-- How one round of the loop of `_carrier_result` ends: with a reason, or at a carrier that has
taken over the obligations of the source. -/
inductive Hop where
  | stop (reason : Option CompletionReason)
  | carried (edge : TransferEvidence) (lane : LaneCompletionEvidence) (c : CompletionContract)

variable (s : CompletionSnapshot)

/-- The transfers of a snapshot that start at a lane, as a set. -/
def CompletionSnapshot.edgesOf (i : LaneIdentity) :
    List TransferEvidence :=
  (s.transfers.filter fun edge => edge.source.laneKey = i.laneKey).dedup

/-- The carriers of a snapshot with a key, as a set. -/
def CompletionSnapshot.carriersOf (key : String × String × String) :
    List CarrierEvidence :=
  (s.carriers.filter fun carrier => carrier.lane.identity.laneKey = key).dedup

/-- The owner of the source has authorised the transfer of exactly its contract. -/
def transferAuthentic (edge : TransferEvidence) (source : LaneIdentity)
    (contractHash : String) : Bool :=
  edge.authenticated && edge.authorityId ≠ "" && edge.evidenceIds ≠ [] && edge.source = source
    && edge.sourceContractHash = contractHash

/-- The carrier that a transfer names is at the integration target of the lane of the snapshot. -/
def carrierTarget (lane : LaneCompletionEvidence) : Bool :=
  lane.identity.repository = s.lane.identity.repository
    && lane.target.phase = .integration
    && lane.target.integrationRef = s.lane.target.integrationRef
    && lane.target.integrationSha = s.lane.target.integrationSha

/-- A transfer maps each obligation of the source to one of the carrier. -/
def transferCovers (mappings : List ObligationTransfer) (source carrier : List Obligation) :
    Bool :=
  mappings.map ObligationTransfer.predecessor ⊆ source
    && source ⊆ mappings.map ObligationTransfer.predecessor
    && mappings.dedup.length = source.dedup.length
    && mappings.map ObligationTransfer.carrier ⊆ carrier

/-- The part of a round that reads the one carrier of the one transfer. -/
def hopTo (source : LaneCompletionEvidence) (edge : TransferEvidence)
    (carrier : CarrierEvidence) : Hop :=
  match validate carrier.lane, carrier.lane.identityScope.contract with
  | none, some c =>
    if carrier.assessmentId = "" ∨ carrier.evidenceIds = []
        ∨ edge.carrier ≠ carrier.lane.identity ∨ edge.carrierContractHash ≠ c.contractHash then
      .stop (some .carrierUnproven)
    else if ¬ carrierTarget s carrier.lane then .stop (some .carrierTargetMismatch)
    else if ¬ transferCovers edge.mappings source.obligations carrier.lane.obligations then
      .stop (some .transferCoverageIncomplete)
    else .carried edge carrier.lane c
  | _, _ => .stop (some .carrierUnproven)

/-- One round of the loop of `_carrier_result` from a lane with a contract, with the evidence ids
that it adds. -/
def hop (first : Bool) (source : LaneCompletionEvidence)
    (c : CompletionContract) (seen : List (String × String × String))
    (seenRows : List (String × Int)) : Hop × List String :=
  match s.edgesOf source.identity with
  | [] => (.stop (if first then none else some .carrierUnproven), [])
  | [edge] =>
    let ids := edge.evidenceIds ++ [edge.authorityId]
    if ¬ transferAuthentic edge source.identity c.contractHash then
      (.stop (some .transferUnauthenticated), ids)
    else if edge.carrier.laneKey ∈ seen then (.stop (some .carrierCycle), ids)
    else if edge.carrier.rowKey ∈ seenRows then (.stop (some .carrierCycle), ids)
    else match s.carriersOf edge.carrier.laneKey with
      | [] => (.stop (some .carrierUnproven), ids)
      | [carrier] => (hopTo s source edge carrier,
          ids ++ carrier.evidenceIds ++ [carrier.assessmentId] ++ carrier.lane.evidenceIds)
      | carriers => (.stop (some .carrierConflict),
          ids ++ carriers.flatMap fun carrier =>
            carrier.evidenceIds ++ [carrier.assessmentId].filter (· ≠ ""))
  | edges => (.stop (some .carrierConflict),
      edges.flatMap fun edge => edge.evidenceIds ++ [edge.authorityId].filter (· ≠ ""))

/-- The loop of `_carrier_result`, for so many more rounds. -/
def carrierWalk (s : CompletionSnapshot) :
    Nat → Bool → LaneCompletionEvidence → CompletionContract → List (String × String × String) →
      List (String × Int) → Option CompletionReason × List String
  | 0, _, _, _, _, _ => (some .transferDepthExceeded, [])
  | rounds + 1, first, source, c, seen, seenRows =>
    match hop s first source c seen seenRows with
    | (.stop reason, ids) => (reason, ids)
    | (.carried edge lane carrierContract, ids) =>
      if directReasons lane carrierContract = [] then (some .carrierCompleted, ids)
      else
        let rest := carrierWalk s rounds false lane carrierContract
          (edge.carrier.laneKey :: seen) (edge.carrier.rowKey :: seenRows)
        (rest.1, ids ++ rest.2)

/-- `_carrier_result`, of a lane with a contract -/
def carrierResult (c : CompletionContract) :
    Option CompletionReason × List String :=
  carrierWalk s 8 true s.lane c [s.lane.identity.laneKey] [s.lane.identity.rowKey]

/-! ## The verdict -/

/-- `_assessment`; `digest` is the SHA-256 of the canonical JSON text of its arguments -/
def assessment (digest : CompletionSnapshot → CompletionVerdict → String) (s : CompletionSnapshot)
    (verdict : CompletionVerdict) (reasons : List CompletionReason) (ids : List String) :
    CompletionAssessment :=
  { verdict, phase := s.lane.target.phase, reasons
    evidenceIds := ids.dedup.insertionSort (· ≤ ·)
    assessmentHash := digest s verdict
    sourceHolds := s.sourceHolds, custodyHolds := s.custodyHolds }

/-- The part of `evaluate` that follows the walk when no transfer starts at the lane. -/
def unfinished (reasons : List CompletionReason) :
    CompletionVerdict × List CompletionReason :=
  if lane.unmet.state = .present ∧ lane.neverProduced.state = .present then
    (.unfinishedNeverProduced, [.knownUnmet, .neverProduced])
  else if lane.unmet.state = .present ∧ lane.someProduction.state = .present then
    (.unfinishedPartial, [.knownUnmet, .someProduction])
  else if lane.unmet.state = .present then (.unknown, [.knownUnmet, .productionUnknown])
  else (.unknown, reasons ++ [.unmetUnproven])

/-- `evaluate` -/
def evaluate (digest : CompletionSnapshot → CompletionVerdict → String) (s : CompletionSnapshot) :
    CompletionAssessment :=
  let ids := s.lane.evidenceIds
  match validate s.lane, s.lane.identityScope.contract with
  | some invalid, _ => assessment digest s .unknown [invalid] ids
  | none, none => assessment digest s .unknown [.contractAbsent] ids
  | none, some c =>
    if directReasons s.lane c = [] then
      assessment digest s .completed
        [if s.lane.target.phase = .candidate then .completedCandidate else .completedIntegration]
        ids
    else match carrierResult s c with
      | (some reason, more) =>
        assessment digest s (if reason = .carrierCompleted then .superseded else .unknown)
          [reason] (ids ++ more)
      | (none, more) =>
        assessment digest s (unfinished s.lane (directReasons s.lane c)).1
          (unfinished s.lane (directReasons s.lane c)).2 (ids ++ more)

end Workbay.Completion
