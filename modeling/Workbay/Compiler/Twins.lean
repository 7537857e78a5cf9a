import Workbay.Compiler.Lanes

/-!
# Verify twins

Every implement lane gets lanes that review it, or is held. The dependents of a lane also wait for
its twins.
-/

namespace Workbay.Compiler

open Workbay.Manifest

/-- `_SHARED_WAVE_NO_REVIEWER_GATE_ID` -/
def sharedGateId : String := "wave_uncovered" ++ verifyNamespace ++ "no_reviewer"

/-- The lane of a twin, as it is to be provisioned. -/
structure Provision where
  laneId : String
  laneKind : String := "review"
  preferredBackend : String
  worktreePath : String
  branch : String
deriving DecidableEq

/-- A blocker that is recorded when the manifest is admitted. -/
structure Blocker where
  twinLaneId : String
  laneId : Option String := none
  resolveAsTwin : Option String := none
  description : Message
deriving DecidableEq

/-- What the emission of twins has come to. -/
structure Emission where
  lanes : Dict String Fields
  dependsOn : Dict String (List String)
  provisioning : List Provision := []
  blockers : List Blocker := []
  diagnostics : List Message := []
  twinsByParent : Dict String (List String) := []
  localEmitted : Dict String Nat := []
  localTotal : Nat := 0

/-- The bounds on local reviewers: for each backend, if it is positive, and for all of them. -/
structure Caps where
  perBackend : Int
  total : Nat

/-- `_is_verify_twin` -/
def isVerifyTwin (laneId : String) : Bool := containsText laneId verifyNamespace

/-- The twin of a lane whose reviewer has a family. -/
def twinId (laneId family : String) : String := laneId ++ verifyNamespace ++ family

/-- The backend that a lane prefers. -/
def preferredBackend (lane : Fields) : String :=
  ((lane.get? "preferred_backend").bind Json.str?).getD ""

/-! ## One lane -/

/-- The fields of a lane that reviews. -/
def twinLane (branch worktreePath backend title objective : String) : Fields :=
  [("branch", .str branch), ("worktree_path", .str worktreePath), ("owned_paths", .arr []),
    ("test_commands", .arr []), ("preferred_backend", .str backend),
    ("difficulty", .str "verify"), ("tier", .str "senior"), ("slack", .int 0),
    ("critical", .bool false), ("title", .str title), ("objective", .str objective)]

/-- The hold of a lane whose backend is not registered. -/
def unknownBackendHold (laneId backend : String) : Blocker :=
  { twinLaneId := twinId laneId "unknown_backend"
    laneId := some laneId
    description :=
      { template := "implement lane %s: unknown preferred_backend %s; holding until a " ++
          "registered backend is declared"
        args := [.text laneId, .value (some (.str backend))] } }

/-- The blocker of a twin that has not reviewed its lane yet. -/
def pendingBlocker (twin laneId : String) : Blocker :=
  { twinLaneId := twin
    description :=
      { template := "verify twin %s pending for %s", args := [.text twin, .text laneId] } }

variable (registry : Registry)

/-- A lane that declares no backend, or an unknown one, is named; the latter is also held. -/
def noteBackend (laneId : String) (state : Emission) : Emission :=
  let backend := preferredBackend (state.lanes.getD laneId [])
  if backend = "" then
    { state with diagnostics := state.diagnostics ++ [
        { template := "implement lane %s: implementer undeclared; reviewer complementarity " ++
            "unverifiable"
          args := [.text laneId] }] }
  else if (registry.get? backend).isSome then state
  else
    { state with
      diagnostics := state.diagnostics ++ [
        { template := "implement lane %s: unknown preferred_backend %s; reviewer " ++
            "complementarity refused (backend absent from registry)"
          args := [.text laneId, .value (some (.str backend))] }]
      blockers := state.blockers ++ [unknownBackendHold laneId backend] }

/-- The local reviewers among the candidates that are below their bound. -/
def localPool (caps : Caps) (localEmitted : Dict String Nat)
    (candidates : List String) : List String :=
  candidates.filter fun backend => (registry.get? backend).any fun spec =>
    spec.modelFamily ≠ "" ∧ spec.costClass ≠ costRemote ∧ isEligibleLocalReviewer spec ∧
      ¬ (0 < caps.perBackend ∧ caps.perBackend ≤ (localEmitted.getD backend 0 : Nat))

/-- The local reviewer with the least load, then the first rank. -/
def chooseLocal (caps : Caps) (state : Emission) (candidates : List String) :
    Option String :=
  if state.localTotal < caps.total then
    let load := fun backend => state.localEmitted.getD backend 0
    ((localPool registry caps state.localEmitted candidates).insertionSort fun a b =>
      load a < load b ∨ (load a = load b ∧ ranksBefore registry a b)).head?
  else none

/-- A twin is added. It is the only lane that waits for nothing but the lane it reviews. -/
def addTwin (taskRef laneId backend : String) (spec : BackendSpec) (state : Emission) :
    Emission :=
  let parent := state.lanes.getD laneId []
  let twin := twinId laneId spec.modelFamily
  let branch := ((parent.get? "branch").bind Json.str?).getD "" ++ "-verify-" ++
    spec.modelFamily
  let worktreePath := defaultWorktree taskRef twin
  let isLocal := spec.costClass ≠ costRemote
  { state with
    lanes := state.lanes.set twin (twinLane branch worktreePath backend
      ("Verify " ++ laneId ++ " (" ++ spec.modelFamily ++ ")")
      ("Adversarial verify-twin for implement lane " ++ laneId ++ "."))
    dependsOn := state.dependsOn.set twin [laneId]
    provisioning := state.provisioning ++ [
      { laneId := twin, preferredBackend := backend, worktreePath, branch }]
    blockers := state.blockers ++ [pendingBlocker twin laneId]
    twinsByParent := state.twinsByParent.set laneId
      (state.twinsByParent.getD laneId [] ++ [twin])
    localEmitted :=
      if isLocal then
        state.localEmitted.set backend (state.localEmitted.getD backend 0 + 1)
      else state.localEmitted
    localTotal := if isLocal then state.localTotal + 1 else state.localTotal }

/-- One candidate. A local one is used only if it is the chosen one. Every twin is a lane, so the
list of twins that the source also keeps refuses nothing more. -/
def emitCandidate (taskRef laneId : String) (chosenLocal : Option String)
    (state : Emission) (backend : String) : Except Refusal Emission :=
  match registry.get? backend with
  | none => .ok state
  | some spec =>
    if spec.modelFamily = "" ∨ (spec.costClass ≠ costRemote ∧ chosenLocal ≠ some backend) then
      .ok state
    else if (state.lanes.get? (twinId laneId spec.modelFamily)).isSome then
      .error
        { template := "twin lane id %s collides with an existing lane"
          args := [.text (twinId laneId spec.modelFamily)] }
    else .ok (addTwin taskRef laneId backend spec state)

/-- The twins of one lane. -/
def emitLane (caps : Caps) (taskRef : String) (state : Emission)
    (laneId : String) : Except Refusal Emission :=
  let candidates :=
    selectReviewBackends registry (preferredBackend (state.lanes.getD laneId []))
  let state := noteBackend registry laneId state
  candidates.foldlM
    (emitCandidate registry taskRef laneId (chooseLocal registry caps state candidates)) state

/-! ## The shared gate -/

variable (workLaneIds : List String)

/-- The lanes without a twin. -/
def uncoveredLanes (state : Emission) : List String :=
  (workLaneIds.insertionSort (· ≤ ·)).filter fun laneId =>
    state.twinsByParent.getD laneId [] = []

/-- The lanes without a twin that are not held yet. -/
def uncoveredForHold (state : Emission) : List String :=
  (uncoveredLanes workLaneIds state).filter fun laneId =>
    state.blockers.all fun blocker => blocker.laneId ≠ some laneId

/-- The hold of a lane without a reviewer. -/
def noReviewerHold (laneId : String) : Blocker :=
  { twinLaneId := twinId laneId "no_reviewer"
    laneId := some laneId
    resolveAsTwin := some sharedGateId
    description :=
      { template := "implement lane %s: no reviewer assigned (bounded local reviewer coverage; " ++
          "off-box reviewers unavailable); held on shared twin %s"
        args := [.text laneId, .text sharedGateId] } }

/-- The gate that reviews every lane without a twin, with a hold for each of them. -/
def addSharedGate (taskRef backend : String) (uncovered : List String) (state : Emission) :
    Emission :=
  let branch := defaultBranch taskRef "wave_uncovered" ++ "-verify-no_reviewer"
  let worktreePath := defaultWorktree taskRef sharedGateId
  { state with
    lanes := state.lanes.set sharedGateId (twinLane branch worktreePath backend
      "Verify uncovered lanes (shared no_reviewer gate)"
      ("Shared adversarial verify-twin for implement lanes that received no per-lane reviewer " ++
        "under the local reviewer bound."))
    dependsOn := state.dependsOn.set sharedGateId (uncovered.insertionSort (· ≤ ·))
    provisioning := state.provisioning ++ [
      { laneId := sharedGateId, preferredBackend := backend, worktreePath, branch }]
    blockers := state.blockers ++ uncovered.map noReviewerHold }

/-- The lanes without a twin are named, and held unless they are. -/
def holdUncovered (taskRef : String) (workLaneIds : List String)
    (state : Emission) : Except Refusal Emission :=
  let uncovered := uncoveredForHold workLaneIds state
  let state := { state with
    diagnostics := state.diagnostics ++ (uncoveredLanes workLaneIds state).map fun laneId =>
      { template := "implement lane %s: no reviewer assigned (bounded local reviewer coverage; " ++
          "off-box reviewers unavailable)"
        args := [.text laneId] } }
  if uncovered = [] then .ok state
  else if (state.lanes.get? sharedGateId).isSome then
    .error
      { template := "shared no_reviewer twin id %s collides with an existing lane"
        args := [.text sharedGateId] }
  else do
    let backend ← selectSharedNoReviewerBackend registry uncovered state.lanes
    let state := addSharedGate taskRef backend uncovered state
    checkAll (fun laneId => require (state.lanes.get? (twinId laneId "no_reviewer") = none)
      { template := "no_reviewer hold id %s collides with an existing lane"
        args := [.text (twinId laneId "no_reviewer")] }) uncovered
    return state

/-! ## The dependents -/

/-- The prerequisites of a lane with the twins of those that are implement lanes. -/
def withTwins (twinsByParent : Dict String (List String))
    (prereqs : List String) : List String :=
  let extras := prereqs.flatMap fun prereq =>
    if prereq ∈ workLaneIds then twinsByParent.getD prereq [] else []
  ((prereqs ++ extras).dedup).insertionSort (· ≤ ·)

/-- The dependents of the implement lanes also wait for the twins. A lane that waits for nothing
more keeps its list, which is sorted. -/
def reroute (state : Emission) : Dict String (List String) :=
  state.dependsOn.map fun (consumer, prereqs) =>
    if isVerifyTwin consumer then (consumer, prereqs.insertionSort (· ≤ ·))
    else if prereqs.flatMap (fun prereq =>
        if prereq ∈ workLaneIds then state.twinsByParent.getD prereq [] else []) ⊆ prereqs then
      (consumer, prereqs.insertionSort (· ≤ ·))
    else (consumer, withTwins workLaneIds state.twinsByParent prereqs)

/-- `_emit_verify_twins` -/
def emitVerifyTwins (perBackendLocalCap : Int) (taskRef : String)
    (workLaneIds : List String) (severities : Dict String String) (lanes : Dict String Fields)
    (dependsOn : Dict String (List String)) : Except Refusal Emission := do
  let caps := { perBackend := perBackendLocalCap, total := maxLocalReviewersTotal registry }
  let rank := fun laneId => severityRank (severities.get? laneId)
  let allocationOrder := workLaneIds.insertionSort fun a b =>
    rank a < rank b ∨ (rank a = rank b ∧ a ≤ b)
  let state ← allocationOrder.foldlM (emitLane registry caps taskRef) { lanes, dependsOn }
  let state ← holdUncovered registry taskRef workLaneIds state
  return { state with
    dependsOn := reroute workLaneIds state
    provisioning := state.provisioning.insertionSort fun a b => a.laneId ≤ b.laneId
    blockers := state.blockers.insertionSort fun a b => a.twinLaneId ≤ b.twinLaneId }

/-! ## What a twin closes -/

/-- `holds_resolved_by_twin`. A twin closes its own row; the shared gate also closes every hold of a
lane without a reviewer. -/
def holdsResolvedByTwin (twin : String) (blockerKeys : List String) : List String :=
  let own := if twin ≠ "" ∧ twin ∈ blockerKeys then [twin] else []
  if twin = sharedGateId then
    blockerKeys.foldl (fun closed key =>
      if endsWith key (verifyNamespace ++ "no_reviewer") ∧ key ∉ closed then closed ++ [key]
      else closed) own
  else own

end Workbay.Compiler
