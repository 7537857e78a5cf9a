import Workbay.Compiler.Merge
import Workbay.Schedule.ReadySet

/-!
# Work lanes

The lanes of the items: their fields in the manifest, their severity and their tier.
-/

namespace Workbay.Compiler

open Workbay.Manifest Workbay.Schedule

/-- A text with its values, as `Refusal`, of something that is no refusal. -/
structure Message where
  template : String
  args : List Arg := []
deriving DecidableEq

/-- A list of strings as a value. -/
def strings (ss : List String) : Json := .arr (ss.map .str)

/-- `_default_branch` -/
def defaultBranch (taskRef laneId : String) : String := "codex/" ++ taskRef ++ "-" ++ laneId

/-- `_default_worktree` -/
def defaultWorktree (taskRef laneId : String) : String :=
  "\x7borchestrator_root\x7d-" ++ taskRef ++ "-" ++ laneId

/-- A text that is not blank, trimmed. -/
def trimmed? : Option Json → Option String
  | some (.str s) => if Text.strip s = "" then none else some (Text.strip s)
  | _ => none

variable (byId : Items)

/-- `_lane_summary` -/
def laneSummary (members : List String) : String :=
  match members.filterMap fun member => trimmed? (Dict.get? (itemOf byId member) "summary") with
  | [] => "work lane " ++ minOf members
  | summaries => "; ".intercalate summaries

/-! ## Test commands -/

/-- A test command of an item. -/
def testCommand (member what : String) : Json → Except Refusal String
  | .str command =>
    if Text.strip command = "" then
      .error { template := "work item %s " ++ what, args := [.text member] }
    else .ok (Text.strip command)
  | _ => .error { template := "work item %s " ++ what, args := [.text member] }

variable (member : String)

/-- `test_cmd` of an item. -/
def singleTestCommand : Option Json → Except Refusal (List String)
  | none | some .null => .ok []
  | some command => readAll (testCommand member "test_cmd must be a non-empty string") [command]

/-- `test_commands` of an item. -/
def manyTestCommands : Option Json → Except Refusal (List String)
  | none | some .null => .ok []
  | some (.arr commands) =>
    readAll (testCommand member "test_commands entries must be non-empty strings") commands
  | some _ => .error
      { template := "work item %s test_commands must be a list", args := [.text member] }

/-- The two fields in which an item states its test commands. -/
def memberTestCommands : Except Refusal (List String) := do
  let single ← singleTestCommand member (Dict.get? (itemOf byId member) "test_cmd")
  let many ← manyTestCommands member (Dict.get? (itemOf byId member) "test_commands")
  return single ++ many

/-- `_lane_test_commands` -/
def laneTestCommands (members : List String) : Except Refusal (List String) :=
  (readAll (memberTestCommands byId) members).map fun commands =>
    commands.flatten.dedup.insertionSort (· ≤ ·)

/-! ## Severity -/

/-- `_SEVERITY_RANK` -/
def severityRanks : Dict String Nat := [("critical", 0), ("high", 1), ("medium", 2), ("low", 3)]

/-- `_severity_rank` -/
def severityRank (severity : Option String) : Nat :=
  severityRanks.getD (lower (Text.strip (severity.getD ""))) 3

/-- `_worst_severity` -/
def worstSeverity (severities : List (Option String)) : String :=
  match severities.insertionSort fun a b => severityRank a ≤ severityRank b with
  | some best :: _ =>
    if (severityRanks.get? (lower (Text.strip best))).isSome then lower (Text.strip best)
    else "low"
  | _ => "low"

/-- The severity that an item states. -/
def statedSeverity? : Option String :=
  match Dict.get? (itemOf byId member) "severity" with
  | some (.str severity) => if Text.strip severity = "" then none else some severity
  | _ => none

/-- A member states a severity that is not in the table. -/
def severityDiagnostic? : Option Message :=
  match statedSeverity? byId member with
  | some severity =>
    if (severityRanks.get? (lower (Text.strip severity))).isSome then none
    else some { template := "work item %s: unrecognised severity %s; ranked as low"
                args := [.text member, .value (some (.str severity))] }
  | none => none

/-! ## The fields of a lane -/

/-- A field with its value, if there is one. -/
def optionalField (key : String) (value : Option Json) : Fields :=
  match value with
  | some value => [(key, value)]
  | none => []

/-- The lane of some items, before it is classified. -/
def workLane (edges : Edges) (taskRef laneId : String) (members : List String) :
    Except Refusal Fields :=
  (laneTestCommands byId members).map fun commands =>
    [("branch", .str (defaultBranch taskRef laneId)),
      ("worktree_path", .str (defaultWorktree taskRef laneId)),
      ("owned_paths", strings (laneOwnedPaths byId members)),
      ("test_commands", strings commands),
      ("title", .str laneId),
      ("objective", .str (laneSummary byId members))] ++
    optionalField "preferred_backend" ((members.findSome? (declaredBackend? byId)).map .str) ++
    optionalField "state_writes" ((edges.stateWrites.get? laneId).map strings) ++
    optionalField "state_reads" ((edges.stateReads.get? laneId).map strings)

/-! ## Difficulty and tier -/

/-- `path.rstrip("/")` -/
def rstripSlashes (path : String) : String :=
  String.ofList (path.toList.rdropWhile (· = '/'))

/-- `_path_sets_overlap` -/
def pathSetsOverlap (left right : String) : Bool :=
  let left := rstripSlashes left
  let right := rstripSlashes right
  left = right || startsWith left (right ++ "/") || startsWith right (left ++ "/")

/-- The paths that are not blank, trimmed, each once. -/
def trimmedPaths (paths : List String) : List String :=
  (((paths.filter fun path => Text.strip path ≠ "").map fun path =>
    rstripSlashes (Text.strip path)).dedup).insertionSort (· ≤ ·)

/-- `classify_difficulty`, of a lane that is no verify twin. -/
def classifyDifficulty (ownedPaths : List String) (overlaySourcePaths : Option (List String))
    (testCommands produces : List String) : String :=
  match overlaySourcePaths with
  | none => "contract_bearing"
  | some overlay =>
    let owned := trimmedPaths ownedPaths
    let touchesOverlay := owned.any fun path => (trimmedPaths overlay).any (pathSetsOverlap path)
    let hasTest := testCommands.any fun command => Text.strip command ≠ ""
    let hasProduced := produces.any fun key => Text.strip key ≠ ""
    if 1 ≤ owned.length ∧ owned.length ≤ 2 ∧ !touchesOverlay ∧ hasTest ∧ !hasProduced then
      "bounded_edit"
    else "contract_bearing"

/-- The keys that the members produce. -/
def producedKeys (members : List String) : List String :=
  ((members.flatMap fun member => (texts (orEmpty (itemOf byId member) "produces")).filterMap
    fun key => trimmed? (some (.str key))).dedup).insertionSort (· ≤ ·)

/-- The texts that a lane has under a field. -/
def textsOf (lane : Fields) (key : String) : List String := texts ((lane.get? key).getD .null)

/-- The classification of a lane: its difficulty, slack, criticality and tier. -/
def classifyLane (overlaySourcePaths : Option (List String))
    (calibrationAccepted : Bool) (slacks : Dict String Int) (criticalLanes : List String)
    (laneId : String) (members : List String) (lane : Fields) : Fields :=
  let difficulty := classifyDifficulty (textsOf lane "owned_paths") overlaySourcePaths
    (textsOf lane "test_commands") (producedKeys byId members)
  let slack := slacks.getD laneId 0
  let critical := decide (laneId ∈ criticalLanes)
  let tier :=
    if calibrationAccepted ∧ !critical ∧ difficulty = "bounded_edit" ∧ 1 ≤ slack then "junior"
    else "senior"
  let lane := lane.set "difficulty" (.str difficulty)
  let lane := lane.set "slack" (.int slack)
  let lane := lane.set "critical" (.bool critical)
  if lane.get? "preferred_backend" ∈ [none, some (.str "codex-remote")] then
    Dict.setDefault (lane.set "preferred_tier" (.str tier)) "preferred_backend"
      (.str "codex-remote")
  else lane

end Workbay.Compiler

/-!
## Review backends

Which backends may review the work of which, by the families of their models.
-/

namespace Workbay.Compiler

open Workbay.Manifest

/-- What the compiler reads of a `BackendSpec`. A backend without a family has the empty one. -/
structure BackendSpec where
  kind : String
  costClass : String
  modelFamily : String
  reviewRank : Int
  reviewEligible : Bool
  dispatchableOffBox : Bool
deriving DecidableEq

/-- `BACKENDS`: every backend has one specification. -/
structure Registry where
  specs : Dict String BackendSpec
  distinct : (specs.map Prod.fst).Nodup

variable (registry : Registry)

/-- The specification of a backend. -/
def Registry.get? (name : String) : Option BackendSpec :=
  registry.specs.get? name

/-- `COST_REMOTE` -/
def costRemote : String := "remote"

/-- `COST_REMOTE_API` -/
def costRemoteApi : String := "remote_api"

/-- `_backend_is_off_box` -/
def backendIsOffBox (spec : BackendSpec) : Bool :=
  spec.dispatchableOffBox || spec.costClass = costRemote

/-- `_is_eligible_local_reviewer` -/
def isEligibleLocalReviewer (spec : BackendSpec) : Bool :=
  spec.kind = "cli" && spec.costClass = costRemoteApi

/-- `_rank_key`, as an order: off-box first, then the rank, then the name. -/
def ranksBefore (a b : String) : Bool :=
  match registry.get? a, registry.get? b with
  | some specA, some specB =>
    let localA := if backendIsOffBox specA then 0 else 1
    let localB := if backendIsOffBox specB then 0 else 1
    decide (localA < localB ∨ (localA = localB ∧
      (specA.reviewRank < specB.reviewRank ∨ (specA.reviewRank = specB.reviewRank ∧ a ≤ b))))
  | _, _ => decide (a ≤ b)

/-- The backends that may review the work of a backend, with their families. -/
def reviewersOf (implBackend : String) : List (String × String) :=
  let implFamily := (registry.get? implBackend).map BackendSpec.modelFamily
  (registry.specs.filter fun (name, spec) => name ≠ implBackend ∧ spec.reviewEligible ∧
    spec.modelFamily ≠ "" ∧ implFamily ≠ some spec.modelFamily).map fun (name, spec) =>
      (spec.modelFamily, name)

/-- `select_review_backends`: the first backend of every family that may review. -/
def selectReviewBackends (implBackend : String) : List String :=
  if implBackend ≠ "" ∧ registry.get? implBackend = none then []
  else
    let byFamily := sortedEntries (Dict.group (reviewersOf registry implBackend))
    let chosen := byFamily.filterMap fun (_, names) =>
      (names.insertionSort fun a b => ranksBefore registry a b).head?
    chosen.insertionSort fun a b => ranksBefore registry a b

/-- `_reachable_local_reviewer_names` -/
def reachableLocalReviewerNames : List String :=
  (((registry.specs.map Prod.fst ++ [""]).flatMap (selectReviewBackends registry)).filter
    fun name => (registry.get? name).any fun spec =>
      !backendIsOffBox spec && isEligibleLocalReviewer spec).dedup

/-- `_MAX_LOCAL_REVIEWERS_TOTAL` -/
def maxLocalReviewersTotal : Nat :=
  (reachableLocalReviewerNames registry).length

/-- The family of a lane that the shared gate covers, with the backends that may review it. -/
def sharedCandidates (laneId : String) (lane : Fields) :
    Except Refusal (String × List String) :=
  let implBackend := ((lane.get? "preferred_backend").bind Json.str?).getD ""
  let refusal : Refusal :=
    { template := "shared no_reviewer gate cannot prove an independent reviewer for implement " ++
        "lane %s with backend %s"
      args := [.text laneId, .text (if implBackend = "" then "<undeclared>" else implBackend)] }
  match registry.get? implBackend with
  | some spec =>
    if spec.modelFamily = "" then .error refusal
    else .ok (spec.modelFamily, selectReviewBackends registry implBackend)
  | none => .error refusal

/-- The backends that may review every one of some lanes. -/
def sharedEligible (covered : List (String × List String)) : List String :=
  match covered with
  | [] => []
  | (_, first) :: others =>
    (first.filter fun backend => others.all fun entry => backend ∈ entry.2).filter fun backend =>
      (registry.get? backend).any fun spec => spec.reviewEligible ∧ spec.modelFamily ≠ "" ∧
        spec.modelFamily ∉ covered.map Prod.fst

/-- The first backend that may review every one of some lanes. -/
def firstShared (covered : List (String × List String)) :
    Except Refusal String :=
  match (sharedEligible registry covered).insertionSort fun a b => ranksBefore registry a b with
  | backend :: _ => .ok backend
  | [] => .error
      { template := "shared no_reviewer gate has no independent reviewer route for " ++
          "implementation model families: %s"
        args := [.texts ((covered.map Prod.fst).dedup.insertionSort (· ≤ ·))] }

/-- `_select_shared_no_reviewer_backend` -/
def selectSharedNoReviewerBackend (uncovered : List String)
    (lanes : Dict String Fields) : Except Refusal String :=
  readAll (fun laneId => sharedCandidates registry laneId (lanes.getD laneId []))
    (uncovered.insertionSort (· ≤ ·)) >>= firstShared registry

end Workbay.Compiler
