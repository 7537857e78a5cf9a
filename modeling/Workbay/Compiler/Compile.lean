import Workbay.Compiler.Twins
import Workbay.Graph.TopologicalOrder

/-!
# Compilation

`compile_work_manifest`, from a list of work items to a manifest with the twins that are to be
provisioned and the blockers that are to be recorded.
-/

namespace Workbay.Compiler

open Workbay.Manifest Workbay.Schedule Workbay.Graph

/-- The keyword arguments of `compile_work_manifest`; of the memory policy it reads the cap only. -/
structure Options where
  taskRef : String
  calibrationAccepted : Bool := false
  maxLaneFiles : Option Int := none
  emitVerifyTwins : Bool := true
  allowConflictWaves : Bool := false
  maxConflictDegree : Option Int := none
  perBackendLocalCap : Int := 1
  overlaySourcePaths : Option (List String) := none

/-- `CompileResult` -/
structure CompileResult where
  manifest : Fields
  twinProvisioning : List Provision
  blockers : List Blocker
  diagnostics : List Message
deriving DecidableEq

/-- The lanes of the items, before any twin. -/
structure WorkGraph where
  canon : Dict String String
  edges : Edges
  collisions : List (String × String)
  membersByLane : Dict String (List String)
  lanes : Dict String Fields
  severities : Dict String String
  diagnostics : List Message

/-- The lanes of the items. -/
def WorkGraph.laneIds (graph : WorkGraph) : List String :=
  (graph.membersByLane.map Prod.fst).insertionSort (· ≤ ·)

/-- The members of a lane. -/
def WorkGraph.membersOf (graph : WorkGraph) (laneId : String) : List String :=
  graph.membersByLane.getD laneId []

/-- `DEFAULT_DONE` -/
def defaultDone : String :=
  "Ready for orchestrator branch review with lane-local verification complete."

/-! ## The work lanes -/

variable (options : Options)

/-- The items are merged into lanes, and the lanes get their edges and fields. -/
def mergeItems (taskRef : String) (byId : Items) :
    Except Refusal WorkGraph := do
  let parent ← buildUnion byId
  let classes := components parent
  validateComponentPreferredBackends byId classes
  let canon := canonicalMap classes
  let edges ← deriveEdgesAndState byId canon
  let collisions ← refuseParentChildCollisions byId parent canon edges.dependsOn
    options.allowConflictWaves
  enforceMaxLaneFiles byId classes options.maxLaneFiles
  let groups := sortedEntries (membersByLane canon)
  let lanes ← readAll (fun entry : String × List String =>
    (workLane byId edges taskRef entry.1 entry.2).map fun lane => (entry.1, lane)) groups
  return {
    canon, edges, collisions, lanes
    membersByLane := groups
    severities := groups.map fun (laneId, members) =>
      (laneId, worstSeverity (members.map (statedSeverity? byId)))
    diagnostics := groups.flatMap fun entry => entry.2.filterMap (severityDiagnostic? byId) }

/-- A refusal of the manifest that was compiled. -/
def failedValidation (refusal : Refusal) : Refusal :=
  { refusal with template := "compiled manifest failed validation: " ++ refusal.template }

/-- The lanes are classified by their slack and criticality. -/
def classifyLanes (byId : Items) (graph : WorkGraph) :
    Except Refusal WorkGraph :=
  match computeSlack graph.laneIds graph.edges.dependsOn with
  | .error residual => .error (failedValidation
      { template := "depends_on cycle prevents Kahn layering: %s", args := [.texts residual] })
  | .ok slacks =>
    let critical := ((computeReadySet graph.laneIds graph.edges.dependsOn graph.laneIds).filter
      fun row => row.2).map Prod.fst
    .ok { graph with
      lanes := graph.lanes.map fun (laneId, lane) =>
        (laneId, classifyLane byId options.overlaySourcePaths options.calibrationAccepted slacks
          critical laneId (graph.membersOf laneId) lane) }

/-! ## Junior lanes -/

/-- A lane has the junior tier. -/
def isJunior (lane : Fields) : Bool := lane.get? "preferred_tier" = some (.str "junior")

/-- A junior lane needs a reviewer. -/
def checkJunior (registry : Registry) (entry : String × Fields) : Check :=
  require (isJunior entry.2 = false ∨ (preferredBackend entry.2 ≠ "" ∧
      selectReviewBackends registry (preferredBackend entry.2) ≠ []))
    { template := "junior lane %s requires a mandatory distinct-family reviewer; none is " ++
        "available for preferred_backend %s"
      args := [.text entry.1, .text (preferredBackend entry.2)] }

/-- A junior lane has been given a reviewer. -/
def checkJuniorTwin (provisioned : List String) (entry : String × Fields) : Check :=
  require (isJunior entry.2 = false ∨
      ∃ twin ∈ provisioned, startsWith twin (entry.1 ++ verifyNamespace) = true)
    { template := "junior lane %s requires a mandatory distinct-family reviewer; reviewer " ++
        "provisioning produced none"
      args := [.text entry.1] }

/-- The twins of the lanes, or none. -/
def addTwins (registry : Registry) (options : Options) (taskRef : String) (graph : WorkGraph) :
    Except Refusal Emission :=
  if options.emitVerifyTwins then do
    checkAll (checkJunior registry) graph.lanes
    let state ← emitVerifyTwins registry options.perBackendLocalCap taskRef graph.laneIds
      graph.severities graph.lanes graph.edges.dependsOn
    checkAll (checkJuniorTwin (state.provisioning.map Provision.laneId)) graph.lanes
    return state
  else do
    require (∀ entry ∈ graph.lanes, isJunior entry.2 = false)
      { template := "junior lanes require mandatory distinct-family reviewer twins" }
    return { lanes := graph.lanes, dependsOn := graph.edges.dependsOn }

/-! ## The manifest -/

/-- A map of lists as a value. -/
def adjacencyField (adjacency : Dict String (List String)) : Json :=
  .obj (adjacency.map fun (laneId, laneIds) => (laneId, strings laneIds))

/-- The conflict keys, which only conflict waves have. Twins have no colours. -/
def conflictFields (workLaneIds : List String)
    (conflicts : List (String × String) × Dict String Nat) : Fields :=
  if options.allowConflictWaves then
    [("conflict_edges", .arr (conflicts.1.map fun (a, b) => strings [a, b])),
      ("colour_classes", .obj (((sortedEntries conflicts.2).filter fun entry =>
        entry.1 ∈ workLaneIds).map fun (laneId, colour) => (laneId, .int colour)))]
  else []

/-- The manifest of the lanes and their prerequisites. -/
def manifestOf (taskRef : String) (lanes : Dict String Fields)
    (dependsOn : Dict String (List String)) (conflicts : Fields) : Fields :=
  let laneIds := (lanes.map Prod.fst).insertionSort (· ≤ ·)
  [("task_ref", .str taskRef),
    ("default_done_definition", .str defaultDone),
    ("merge_order", strings (topologicalOrder laneIds dependsOn)),
    ("routing", .arr []),
    ("lanes", .obj ((sortedEntries lanes).map fun (laneId, lane) => (laneId, .obj lane))),
    ("downstream", adjacencyField (downstreamFromDependsOn laneIds dependsOn)),
    ("depends_on", adjacencyField ((sortedEntries dependsOn).filter fun entry => entry.2 ≠ []))]
    ++ conflicts

/-- The conflict edges and colours of the work lanes, in conflict waves. -/
def colourConflicts (graph : WorkGraph) :
    Except Refusal (List (String × String) × Dict String Nat) :=
  if options.allowConflictWaves then
    partitionConflicts graph.laneIds graph.collisions options.maxConflictDegree
  else .ok ([], [])

/-- `compile_work_manifest`, of items that were accepted -/
def compileItems (host : Host) (registry : Registry) (options : Options) (byId : Items) :
    Except Refusal CompileResult := do
  let taskRef := Text.strip options.taskRef
  let merged ← mergeItems options taskRef byId
  let graph ← classifyLanes options byId merged
  let conflicts ← colourConflicts options graph
  let state ← addTwins registry options taskRef graph
  let manifest := manifestOf taskRef state.lanes state.dependsOn
    (conflictFields options graph.laneIds conflicts)
  (validateManifest host manifest).mapError failedValidation
  return {
    manifest
    twinProvisioning := state.provisioning
    blockers := state.blockers
    diagnostics := graph.diagnostics ++ state.diagnostics }

/-- `compile_work_manifest` -/
def compileWorkManifest (host : Host) (registry : Registry) (options : Options)
    (workItems : List Fields) : Except Refusal CompileResult := do
  require (Text.strip options.taskRef ≠ "") { template := "task_ref must be a non-empty string" }
  require (workItems ≠ []) { template := "work_items must be non-empty" }
  checkAll refuseReservedId workItems
  let byId ← validateWorkItems workItems []
  compileItems host registry options byId

end Workbay.Compiler
