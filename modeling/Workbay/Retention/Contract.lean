import Mathlib.Order.Basic

/-!
# The retention contract

What consumers say about the resources they hold: who owns a resource, what is registered about it,
which resources need which, and the proofs for all of that. A proof is good inside its window only.
-/

namespace Workbay.Retention

/-- A time with its offset from UTC. Times are compared as instants, but written with the offset. -/
structure Timestamp where
  instant : Int
  offset : Int
deriving DecidableEq

/-- `EvidenceRef` -/
structure EvidenceRef where
  ref : String
  digest : String
deriving DecidableEq

/-- `Owner` -/
structure Owner where
  repository : String
deriving DecidableEq

/-- The values of `resource_kind`. -/
inductive ResourceKind where
  | directory
  | artifact
  | gitRepository
  | gitWorktree
  | dockerImage
  | dockerVolume
deriving DecidableEq

/-- `ResourceIdentity` -/
structure ResourceIdentity where
  owner : Owner
  resourceKind : ResourceKind
  identity : String
deriving DecidableEq

/-- `SourceIdentity` -/
inductive SourceIdentity where
  | git (revision tree : String)
  | docker (digest : String)
deriving DecidableEq

/-- `ProofState` -/
inductive ProofState where
  | verified
  | unknown
  | denied
  | contradictory
deriving DecidableEq

def ProofState.text : ProofState → String
  | verified => "verified"
  | unknown => "unknown"
  | denied => "denied"
  | contradictory => "contradictory"

/-- `Proof` -/
structure Proof where
  state : ProofState := .unknown
  evidence : List EvidenceRef := []
  observedAt : Option Timestamp := none
  validUntil : Option Timestamp := none
deriving DecidableEq

/-- What is wrong with a proof at a time, past its state and evidence. -/
def windowProblem (proof : Proof) (now : Int) : Option String :=
  match proof.observedAt, proof.validUntil with
  | some observedAt, some validUntil =>
    if validUntil.instant < observedAt.instant then some "proof_invalid_window"
    else if now < observedAt.instant then some "proof_future"
    else if validUntil.instant < now then some "proof_stale"
    else none
  | _, _ => some "proof_missing_freshness"

/-- `proof_problem` -/
def proofProblem (proof : Proof) (now : Int) : Option String :=
  if proof.state ≠ .verified then some ("proof_" ++ proof.state.text)
  else if proof.evidence = [] then some "proof_missing_evidence"
  else windowProblem proof now

/-- `WorkBayIdentity` -/
structure WorkBayIdentity where
  task : Option String := none
  lane : Option String := none
  passId : Option String := none
  job : Option String := none
deriving DecidableEq

/-- `OrcaIdentity` -/
structure OrcaIdentity where
  run : Option String := none
  task : Option String := none
  dispatch : Option String := none
deriving DecidableEq

/-- `Correlation` -/
structure Correlation where
  workbay : Option WorkBayIdentity := none
  orca : Option OrcaIdentity := none
  verifiedJoin : Option Proof := none
deriving DecidableEq

/-- The values of the state of a stream. -/
inductive StreamState where
  | active
  | idle
  | dormant
  | completed
deriving DecidableEq

/-- `StreamExpectation` -/
structure StreamExpectation where
  state : StreamState
  cadenceSeconds : Option Nat := none
  deadline : Option Timestamp := none
  graceSeconds : Nat
deriving DecidableEq

/-- `Operation` -/
inductive Operation where
  | archive
  | retire
  | withdrawMaterialization
deriving DecidableEq

/-- `Registration`: it has evidence. -/
structure Registration where
  resource : ResourceIdentity
  source : SourceIdentity
  operation : Operation
  policyVersion : String
  evidence : List EvidenceRef
  evidence_ne_nil : evidence ≠ []
  correlation : Correlation := {}
  stream : Option StreamExpectation := none
deriving DecidableEq

/-- The values of `relation`. -/
inductive EdgeRelation where
  | git
  | symlink
  | editable
  | process
  | mount
  | container
  | childImage
  | rollback
  | dbVolume
  | other
deriving DecidableEq

/-- The values of the state of an edge. -/
inductive EdgeState where
  | required
  | released
  | unknown
deriving DecidableEq

/-- `DependencyEdge`, from a consumer to a provider that it needs -/
structure DependencyEdge where
  consumer : ResourceIdentity
  provider : ResourceIdentity
  relation : EdgeRelation
  state : EdgeState
  proof : Proof
deriving DecidableEq

/-- `DependencySnapshot` -/
structure DependencySnapshot where
  edges : List DependencyEdge := []
  inventoryComplete : Proof
  noLiveConsumers : Proof
  sccClear : Proof
  componentMembers : List ResourceIdentity := []
deriving DecidableEq

/-- `Hold` -/
structure Hold where
  code : String
  subject : String
deriving DecidableEq

/-- `_proof_holds`, of a proof that is given -/
def proofHolds (proof : Proof) (subject : String) (now : Int) : List Hold :=
  match proofProblem proof now with
  | some code => [⟨code, subject⟩]
  | none => []

/-- What a snapshot adds to the holds of `admit_retention`. -/
def dependencyHolds (dependencies : DependencySnapshot) (resource : ResourceIdentity) (now : Int) :
    List Hold :=
  proofHolds dependencies.inventoryComplete "dependencies.inventory_complete" now ++
    proofHolds dependencies.noLiveConsumers "dependencies.no_live_consumers" now ++
    proofHolds dependencies.sccClear "dependencies.scc_clear" now ++
    (if dependencies.componentMembers.length > 1 then
      [⟨"scc_held", "dependencies.component_members"⟩] else []) ++
    dependencies.edges.flatMap fun edge =>
      proofHolds edge.proof "dependency.edge" now ++
        if edge.provider = resource ∧ edge.state ≠ .released then
          [⟨if edge.state = .required then "dependency_required" else "dependency_unknown",
            "dependency.provider"⟩]
        else []

end Workbay.Retention
