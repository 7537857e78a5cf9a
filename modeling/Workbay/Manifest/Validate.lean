import Workbay.Data.Check
import Workbay.Data.Json
import Workbay.Graph.Visit
import Workbay.Manifest.Paths
import Mathlib.Data.List.Dedup

/-!
# Validation of a lane manifest

`validate_manifest` with everything it calls. It returns its argument when it accepts; the model
returns nothing, as the argument is unchanged. Every message ends with the path of the file.
-/

namespace Workbay.Manifest

open Workbay.Graph

/-- The fields of a JSON object. -/
abbrev Fields := Dict String Json

/-- A manifest that was read: an object whose keys are distinct, as are those of its values. -/
structure LaneManifest where
  fields : Fields
  distinct : (Json.obj fields).wellFormed = true

/-! ## Refusals -/

/-- What a message says in the place of a `%s`. -/
inductive Arg where
  | text (s : String)
  | texts (ss : List String)
  | number (i : Int)
  /-- `repr` of what an object has under a key. -/
  | value (v : Option Json)
deriving DecidableEq

/-- Which exception is raised. -/
inductive Raised where
  | runtimeError
  | valueError
deriving DecidableEq

/-- An exception with its message: the text and what stands in its places. -/
structure Refusal where
  template : String
  args : List Arg := []
  raised : Raised := .runtimeError
deriving DecidableEq

/-- A check of something of a manifest. -/
abbrev Check := Except Refusal Unit

/-- A refusal that names a lane. -/
def laneRefusal (laneId template : String) : Refusal :=
  { template := "lane '%s' " ++ template, args := [.text laneId] }

/-! ## Values -/

/-- `_is_non_empty_str` -/
def isNonEmptyStr : Json → Bool
  | .str s => Text.strip s ≠ ""
  | _ => false

/-- A text of `n` hexadecimal digits, of which `ok` says which are allowed. -/
def isHex (ok : Char → Bool) (n : Nat) (s : String) : Bool :=
  s.toList.length = n && s.toList.all ok

/-- `[0-9a-f]` -/
def isLowerHex (c : Char) : Bool := decide (('0' ≤ c ∧ c ≤ '9') ∨ ('a' ≤ c ∧ c ≤ 'f'))

/-- `[0-9a-fA-F]` -/
def isAnyHex (c : Char) : Bool := isLowerHex c || decide ('A' ≤ c ∧ c ≤ 'F')

/-- A member of an object, if the value is one. -/
def member? (value : Json) (key : String) : Option Json := value.get? key

/-- A value is an array of strings. -/
def isStrArray : Json → Bool
  | .arr xs => xs.all fun x => x.str?.isSome
  | _ => false

variable (host : Host)

/-- The value is a time stamp of UTC. -/
def isUtc : Option Json → Bool
  | some (.str s) => host.isUtcStamp s
  | _ => false

variable (data : Fields)

/-- The members of a field that is an object, and no entries otherwise. -/
def members (key : String) : Fields :=
  ((data.get? key).bind Json.obj?).getD []

/-- The elements of a field that is an array, and no elements otherwise. -/
def elements (key : String) : List Json :=
  ((data.get? key).bind Json.arr?).getD []

/-! ## The markers of a lane -/

/-- `TERMINAL_STATUSES` -/
def terminalStatuses : List String := ["merged", "closed", "closed_stale", "superseded"]

/-- `EVICTABLE_TERMINAL_STATUSES` -/
def evictableTerminalStatuses : List String := ["merged", "closed", "closed_stale"]

/-- `completion_contract_ref` has exactly a positive revision and a hash. -/
def isContractRef : Json → Bool
  | .obj members =>
    (members.map Prod.fst).all (fun key => key = "revision" ∨ key = "contract_hash") &&
    (match Dict.get? members "revision" with
      | some (.int revision) => 0 < revision
      | _ => false) &&
    match Dict.get? members "contract_hash" with
    | some (.str hash) => isHex isLowerHex 64 hash
    | _ => false
  | _ => false

/-- `terminal` has a status of the table and a source. -/
def isTerminalMarker (marker : Json) : Bool :=
  (match member? marker "status" with
    | some (.str status) => terminalStatuses.contains status
    | _ => false) &&
  member? marker "source" = some (.str "worktree_lanes")

/-- `released` has its status, its source, a verification flag and a time. -/
def isReleasedMarker (marker : Json) : Bool :=
  member? marker "status" = some (.str "planned") &&
  member? marker "source" = some (.str "worktree_lanes") &&
  ((member? marker "verified").bind Json.bool?).isSome && isUtc host (member? marker "at")

/-- `compacted` has a time and the keys that were dropped. -/
def isCompactedMarker (marker : Json) : Bool :=
  isUtc host (member? marker "at") && ((member? marker "dropped").any isStrArray)

/-- The markers of one lane. -/
def checkMarkers (laneId : String) (lane : Fields) : Check := do
  checkSome (fun ref => require (isContractRef ref)
    { laneRefusal laneId ("completion_contract_ref requires a positive integer revision and a " ++
        "64-character lowercase hex contract_hash") with raised := .valueError })
    (lane.get? "completion_contract_ref")
  checkSome (fun value => require value.bool?.isSome
    (laneRefusal laneId "self_review must be a boolean")) (lane.get? "self_review")
  checkSome (fun marker => do
    require (isTerminalMarker marker)
      (laneRefusal laneId "terminal must contain a canonical status and source 'worktree_lanes'")
    require (isUtc host (member? marker "at"))
      (laneRefusal laneId "terminal must contain a UTC ISO at")) (lane.get? "terminal")
  checkSome (fun marker => do
    require (isReleasedMarker host marker)
      (laneRefusal laneId ("released must contain planned status, a verification flag, and a UTC " ++
        "ISO at from 'worktree_lanes'"))
    require (lane.get? "terminal" = none)
      (laneRefusal laneId "cannot contain both terminal and released markers"))
    (lane.get? "released")
  checkSome (fun marker => require (isCompactedMarker host marker)
    (laneRefusal laneId "compacted must contain dropped keys and a UTC ISO at"))
    (lane.get? "compacted")

/-! ## The fields of a lane -/

/-- `_require_key` -/
def requireKey (fields : Fields) (context key : String) : Check :=
  require (fields.get? key ≠ none)
    { template := "lane manifest missing required %s key '%s'", args := [.text context, .text key] }

/-- `REQUIRED_LANE_KEYS` -/
def requiredLaneKeys : List String := ["branch", "worktree_path", "owned_paths", "test_commands"]

variable (laneId : String)

variable (lane : Fields)

/-- A field that a lane must have is a string that is not blank. -/
def checkDefined (key : String) : Check :=
  require ((lane.get? key).any isNonEmptyStr)
    { template := "lane '%s' must define a non-empty %s", args := [.text laneId, .text key] }

/-- A field that a lane may have is a list. -/
def checkOptionalList (key : String) : Check :=
  checkSome (fun value => require value.arr?.isSome
    (laneRefusal laneId (key ++ " must be a list when present"))) (lane.get? key)

/-- A field that a lane may have is a list of strings. -/
def checkOptionalTexts (key : String) : Check := do
  checkOptionalList laneId lane key
  checkSome (fun value => require (isStrArray value)
    (laneRefusal laneId (key ++ " entries must be strings"))) (lane.get? key)

/-- A field that a lane may have is a string that is not blank. -/
def checkOptionalText (key : String) : Check :=
  checkSome (fun value => require (isNonEmptyStr value)
    (laneRefusal laneId (key ++ " must be a non-empty string when present"))) (lane.get? key)

/-- One entry of `owned_paths`. -/
def checkOwnedPath : Json → Check
  | .str path =>
    match normalizeOwnedPath path with
    | .ok _ => .ok ()
    | .error _ => .error (laneRefusal laneId
        "owned_paths entry must be repo-relative (absolute or escaping path refused)")
  | _ => .error (laneRefusal laneId "owned_paths entries must be strings")

/-- `owned_paths` of a lane. -/
def checkOwnedPaths : Check :=
  match lane.get? "owned_paths" with
  | some (.arr paths) => checkAll (checkOwnedPath laneId) paths
  | _ => .error (laneRefusal laneId "owned_paths must be a list")

/-- The efforts of `WORKER_REASONING_EFFORT_CHOICES` that are no modes. -/
def concreteEfforts : List String := ["low", "medium", "high", "xhigh", "max"]

/-- `str.lower`, of a text that is compared with `concreteEfforts` only. -/
def lower (s : String) : String := String.ofList (s.toList.map Char.toLower)

/-- The tiers of `CODEX_MODEL_TIERS`. -/
def codexModelTiers : Dict String String :=
  [("gpt-5.6-sol", "senior"), ("gpt-6.1-sol", "senior"), ("gpt-5.6-luna", "junior"),
    ("gpt-6-luna", "junior"), ("gpt-5.3-sparx", "junior")]

/-- `preferred_reasoning_effort` of a lane. -/
def checkEffort : Check :=
  checkSome (fun value => require (value.str?.any fun effort =>
      concreteEfforts.contains (lower (Text.strip effort)))
    { template := "lane '%s' preferred_reasoning_effort must be one of %s when present"
      args := [.text laneId, .texts concreteEfforts] }) (lane.get? "preferred_reasoning_effort")

/-- A field that only `codex-remote` lanes may have, with its two values. -/
def checkCodexOnly (key first second : String) : Check :=
  checkSome (fun value => do
    require (value = .str first ∨ value = .str second)
      { template := "lane '%s' %s must be one of ('%s', '%s') when present"
        args := [.text laneId, .text key, .text first, .text second] }
    require (lane.get? "preferred_backend" = some (.str "codex-remote"))
      { template := "lane '%s' %s is codex-remote only; preferred_backend is %s"
        args := [.text laneId, .text key, .value (lane.get? "preferred_backend")] })
    (lane.get? key)

/-- The tier that the preferred model of a lane belongs to, if the table has it. -/
def modelTier? : Option String :=
  ((lane.get? "preferred_model").bind Json.str?).bind (Dict.get? codexModelTiers)

/-- `preferred_tier` of a lane. -/
def checkTier : Check := do
  checkCodexOnly laneId lane "preferred_tier" "senior" "junior"
  checkSome (fun tierVal =>
    checkSome (fun tier => require (Json.str tier = tierVal)
      { template := "lane '%s' preferred_model %s belongs to tier '%s', not %s"
        args := [.text laneId, .value (lane.get? "preferred_model"), .text tier,
          .value (some tierVal)] }) (modelTier? lane)) (lane.get? "preferred_tier")

/-- `GRANT_KEYS` -/
def grantKeys : List String := ["worktree", "primary_repo", "extra_write_paths"]

/-- `GRANT_ACCESS_LEVELS` -/
def grantAccessLevels : List String := ["read_only", "read_write", "none"]

/-- One entry of `extra_write_paths`. -/
def checkExtraPath (laneId : String) (entry : Json) : Check :=
  match entry with
  | .str text =>
    if Text.strip text = "" then
      .error (laneRefusal laneId "grants.extra_write_paths entries must be non-empty strings")
    else do
      require (".." ∉ parts (Text.strip text)) (laneRefusal laneId
        "grants.extra_write_paths entry must not contain '..' path traversal")
      require (initialSlashes (Text.strip text) = 0 ∨ extraWritePathTooBroad host text = false)
        (laneRefusal laneId "grants.extra_write_paths entry is too broad")
  | _ => .error (laneRefusal laneId "grants.extra_write_paths entries must be non-empty strings")

/-- `_validate_grants` -/
def validateGrants (laneId : String) (grants : Json) : Check :=
  match grants with
  | .obj members => do
    let unknown := ((members.map Prod.fst).filter (· ∉ grantKeys)).insertionSort (· ≤ ·)
    require (unknown = [])
      { template := "lane '%s' grants has unknown key(s) %s"
        args := [.text laneId, .texts unknown] }
    checkAll (fun key => checkSome (fun value =>
      require (value.str?.any grantAccessLevels.contains)
        { template := "lane '%s' grants.%s must be one of %s when present"
          args := [.text laneId, .text key, .texts grantAccessLevels] })
      (Dict.get? members key)) ["worktree", "primary_repo"]
    checkSome (fun extra =>
      match extra with
      | .arr entries => checkAll (checkExtraPath host laneId) entries
      | _ => .error (laneRefusal laneId "grants.extra_write_paths must be a list when present"))
      (Dict.get? members "extra_write_paths")
  | _ => .error (laneRefusal laneId "grants must be an object when present")

/-- `base_sha` of a lane. -/
def checkBaseSha : Check :=
  checkSome (fun value => require (value.str?.any fun sha => isHex isLowerHex 40 (Text.strip sha))
    (laneRefusal laneId
      "base_sha must be a non-empty full 40-char hex commit sha when present"))
    (lane.get? "base_sha")

/-- One entry of `lanes`. -/
def checkLane (laneId : String) : Json → Check
  | .obj lane => do
    checkMarkers host laneId lane
    checkAll (requireKey lane ("lane '" ++ laneId ++ "'")) requiredLaneKeys
    checkDefined laneId lane "branch"
    checkDefined laneId lane "worktree_path"
    checkOwnedPaths laneId lane
    checkOptionalTexts laneId lane "state_reads"
    checkOptionalTexts laneId lane "state_writes"
    require ((Dict.get? lane "test_commands").any fun value => value.arr?.isSome)
      (laneRefusal laneId "test_commands must be a list")
    checkAll (checkOptionalList laneId lane)
      ["commit_paths", "tooling_paths", "capability_tags", "preflight_commands"]
    checkOptionalText laneId lane "preferred_model"
    checkOptionalText laneId lane "preferred_backend"
    checkEffort laneId lane
    checkCodexOnly laneId lane "preferred_speed" "standard" "fast"
    checkTier laneId lane
    checkOptionalText laneId lane "preflight_failure_summary"
    checkOptionalText laneId lane "preflight_failure_details"
    checkOptionalList laneId lane "guidance_fallbacks"
    checkSome (validateGrants host laneId) (Dict.get? lane "grants")
    checkBaseSha laneId lane
  | _ => .error { template := "lane manifest lanes entries must be string->object pairs" }

/-! ## The prerequisites -/

/-- A refusal of the whole manifest that names one lane. -/
def namedRefusal (template laneId : String) : Refusal :=
  { template := "lane manifest " ++ template, args := [.text laneId] }

variable (laneIds : List String)

/-- One prerequisite of a lane. -/
def readPrereq (laneId : String) : Json → Except Refusal String
  | .str prereq =>
    if prereq ∈ laneIds then .ok prereq
    else .error
      { template := "lane manifest depends_on for lane '%s' references unknown lane(s) %s"
        args := [.text laneId, .texts [prereq]] }
  | _ => .error (namedRefusal "depends_on for lane '%s' entries must be strings" laneId)

variable (entry : String × Json)

/-- One entry of `depends_on`. -/
def readPrereqs :
    Except Refusal (String × List String) :=
  if entry.1 ∈ laneIds then
    match entry.2 with
    | .arr prereqs => (readAll (readPrereq laneIds entry.1) prereqs).map fun clean =>
        (entry.1, clean)
    | _ => .error (namedRefusal "depends_on for lane '%s' must be a list" entry.1)
  else .error (namedRefusal "depends_on references unknown source lane '%s'" entry.1)

/-- The strings of an array. -/
def texts (value : Json) : List String := (value.arr?.getD []).filterMap Json.str?

/-- An object of arrays of strings as a map of lists. -/
def readAdjacency (members : Fields) : Dict String (List String) :=
  members.map fun (source, targets) => (source, texts targets)

/-- The map of lists under a key of a manifest. -/
def adjacencyOf (key : String) : Dict String (List String) :=
  readAdjacency (members data key)

/-- The successors of a lane in a map of lists. -/
def successors (adjacency : Dict String (List String)) (laneId : String) : List String :=
  adjacency.getD laneId []

/-- `_validate_depends_on`: known lanes only, and no cycle. -/
def validateDependsOn (dependsOn : Option Json) (laneIds : List String) :
    Except Refusal (Dict String (List String)) :=
  match dependsOn with
  | none | some .null => .ok []
  | some (.obj members) => do
    let normalized ← readAll (readPrereqs laneIds) members
    match backEdge? laneIds (successors normalized) (normalized.map Prod.fst) with
    | some (node, prereq) =>
      .error
        { template := "lane manifest depends_on cycle detected (back-edge '%s' -> '%s')"
          args := [.text node, .text prereq] }
    | none => return normalized
  | some _ => .error { template := "lane manifest depends_on must be an object when present" }

variable (dependsOn : Dict String (List String))

/-- `_depends_on_reaches`: the target is the start, or a prerequisite of a lane that is reached. -/
def dependsOnReaches (start target : String) : Bool :=
  start = target ||
    (visit (dependsOn.map Prod.fst) (successors dependsOn) [start]).any fun current =>
      target ∈ successors dependsOn current

/-- One lane depends on the other, directly or not. -/
def comparable (left right : String) : Bool :=
  dependsOnReaches dependsOn left right || dependsOnReaches dependsOn right left

/-! ## The conflicts -/

/-- An unordered pair, the smaller one first. -/
def unordered (a b : String) : String × String := if a ≤ b then (a, b) else (b, a)

/-- One entry of `conflict_edges`, with its index. -/
def readConflictEdge (entry : Json × Nat) :
    Except Refusal (String × String) :=
  match entry.1 with
  | .arr [.str a, .str b] =>
    if a = "" ∨ b = "" then .error
      { template := "lane manifest conflict_edges[%s] endpoints must be non-empty strings"
        args := [.number entry.2] }
    else if a = b then .error
      { template := "lane manifest conflict_edges[%s] must be an undirected pair of distinct lanes"
        args := [.number entry.2] }
    else if a ∉ laneIds ∨ b ∉ laneIds then .error
      { template := "lane manifest conflict_edges references unknown lane(s) %s"
        args := [.texts ([a, b].filter (· ∉ laneIds))] }
    else .ok (unordered a b)
  | .arr [_, _] => .error
      { template := "lane manifest conflict_edges[%s] endpoints must be non-empty strings"
        args := [.number entry.2] }
  | _ => .error
      { template := "lane manifest conflict_edges[%s] must be a 2-element pair"
        args := [.number entry.2] }

/-- One entry of `colour_classes`. -/
def readColour : Except Refusal (String × Int) :=
  if entry.1 ∈ laneIds then
    match entry.2 with
    | .int colour => .ok (entry.1, colour)
    | _ => .error (namedRefusal "colour_classes['%s'] must be an int" entry.1)
  else .error (namedRefusal "colour_classes references unknown lane '%s'" entry.1)

/-- A conflict edge has two colours. -/
def checkBicoloured (colours : Dict String Int) (pair : String × String) : Check :=
  match colours.get? pair.1, colours.get? pair.2 with
  | some left, some right => require (left ≠ right)
      { template := "lane manifest monochrome conflict edge between '%s' and '%s' (colour=%s)"
        args := [.text pair.1, .text pair.2, .number left] }
  | _, _ => .error
      { template := "lane manifest conflict edge [%s, %s] lacks colour_classes entries"
        args := [.text pair.1, .text pair.2] }

/-- A value that is neither absent nor null has a shape. -/
def checkShape (shape : Json → Bool) (refusal : Refusal) : Option Json → Check
  | none | some .null => .ok ()
  | some value => require (shape value) refusal

/-- `_validate_conflict_keys`: the conflict pairs and the colours. The shapes are checked first. -/
def validateConflictKeys (laneIds : List String) :
    Except Refusal (List (String × String) × Dict String Int) := do
  checkShape (fun value => value.arr?.isSome)
    { template := "lane manifest conflict_edges must be a list when present" }
    (data.get? "conflict_edges")
  checkShape (fun value => value.obj?.isSome)
    { template := "lane manifest colour_classes must be an object when present" }
    (data.get? "colour_classes")
  let pairs ← readAll (readConflictEdge laneIds) (elements data "conflict_edges").zipIdx
  let colours ← readAll (readColour laneIds) (members data "colour_classes")
  checkAll (checkBicoloured colours) pairs
  return (pairs, colours)

/-! ## Owned paths and state keys -/

/-- The pairs of a list, the earlier element first. -/
def pairsOf {α : Type} : List α → List (α × α)
  | [] => []
  | x :: xs => xs.map (fun y => (x, y)) ++ pairsOf xs

/-- The marker that a lane has landed. -/
def checkLanded (laneId : String) (marker : Json) : Check := do
  require (((member? marker "sha").bind Json.str?).any fun sha =>
      isHex isAnyHex 40 sha || isHex isAnyHex 64 sha)
    (laneRefusal laneId "landed must contain a 40/64 hex sha")
  require (isUtc host (member? marker "at"))
    (laneRefusal laneId "landed must contain a UTC ISO at")

/-- A lane that has landed, has ended or was released owns nothing any more. -/
def ownershipRetired : Bool :=
  (lane.get? "landed").isSome || (lane.get? "terminal").isSome ||
    (lane.get? "released").any fun marker => member? marker "verified" = some (.bool true)

/-- The roots that a lane owns; every path of it has passed `checkOwnedPath`. -/
def ownedRoots : List String :=
  match lane.get? "owned_paths" with
  | some (.arr paths) => paths.filterMap fun path =>
    path.str?.bind fun path => (normalizeOwnedPath path).toOption
  | _ => []

/-- The lanes that own roots, with their roots. -/
def laneRoots (lanes : Fields) : Dict String (List String) :=
  lanes.filterMap fun (laneId, lane) =>
    match lane with
    | .obj lane =>
      if ownershipRetired lane || ownedRoots lane = [] then none else some (laneId, ownedRoots lane)
    | _ => none

/-- Two lanes are joined by a conflict edge whose ends have different colours. -/
def bicoloured (pairs : List (String × String)) (colours : Dict String Int)
    (left right : String) : Bool :=
  decide (unordered left right ∈ pairs) &&
    match colours.get? left, colours.get? right with
    | some cLeft, some cRight => cLeft ≠ cRight
    | _, _ => false

/-- The path that a message names for two roots that overlap. -/
def overlapPath (leftRoot rightRoot : String) : String :=
  if leftRoot = rightRoot then if leftRoot = "" then "/" else leftRoot
  else if leftRoot = "" then if rightRoot = "" then "/" else rightRoot
  else if rightRoot = "" then leftRoot
  else if startsWith leftRoot (rightRoot ++ "/") then leftRoot else rightRoot

/-- The roots of two lanes do not overlap, unless the lanes are ordered or coloured apart. -/
def checkCollision (pairs : List (String × String))
    (colours : Dict String Int) (entries : (String × List String) × (String × List String)) :
    Check :=
  let ((left, leftRoots), (right, rightRoots)) := entries
  checkAll (fun leftRoot => checkAll (fun rightRoot => require
      (ownedPathRootsOverlap leftRoot rightRoot = false ∨ comparable dependsOn left right ∨
        bicoloured pairs colours left right)
      { template := "lane manifest owned_paths collision between lanes '%s' and '%s' on path " ++
          "'%s': declare depends_on so one transitively depends on the other, or split " ++
          "owned_paths so roots do not overlap"
        args := [.text left, .text right, .text (overlapPath leftRoot rightRoot)] }) rightRoots)
    leftRoots

/-- Entries in the order of their keys. -/
def sortedEntries {α : Type} (entries : Dict String α) : Dict String α :=
  entries.insertionSort fun a b => a.1 ≤ b.1

/-- `_validate_owned_path_collision_freedom` -/
def validateOwnedPathCollisionFreedom (lanes : Fields)
    (dependsOn : Dict String (List String)) (pairs : List (String × String))
    (colours : Dict String Int) : Check := do
  checkAll (fun entry => checkSome (checkLanded host entry.1) (member? entry.2 "landed")) lanes
  checkAll (checkCollision dependsOn pairs colours) (pairsOf (sortedEntries (laneRoots lanes)))

/-- The state keys that a lane has under a field. -/
def stateKeys (lane : Json) (key : String) : List String :=
  match member? lane key with
  | some (.arr entries) => entries.filterMap Json.str?
  | _ => []

/-- The keys that one of two lanes writes and the other one reads or writes. -/
def conflictKeys (left right : Json) : List String :=
  (stateKeys left "state_writes").filter
      (fun key => key ∈ stateKeys right "state_writes" ∨ key ∈ stateKeys right "state_reads") ++
    (stateKeys right "state_writes").filter (· ∈ stateKeys left "state_reads")

/-- Two lanes do not conflict on a state key, unless they are ordered. -/
def checkStateConflict
    (entries : (String × Json) × (String × Json)) : Check :=
  let ((left, leftLane), (right, rightLane)) := entries
  let keys := conflictKeys leftLane rightLane
  require (keys = [] ∨ comparable dependsOn left right)
    { template := "lane manifest state key conflict between lanes '%s' and '%s' on key '%s': " ++
        "declare depends_on so one transitively depends on the other, or split " ++
        "state_reads/state_writes so keys do not conflict"
      args := [.text left, .text right, .text ((keys.insertionSort (· ≤ ·)).headD "")] }

/-- `_validate_state_key_conflict_freedom`. A lane without state keys conflicts with none. -/
def validateStateKeyConflictFreedom (lanes : Fields) (dependsOn : Dict String (List String)) :
    Check :=
  checkAll (checkStateConflict dependsOn) (pairsOf (sortedEntries lanes))

/-! ## The whole manifest -/

/-- `REQUIRED_TOP_LEVEL_KEYS` -/
def requiredTopLevelKeys : List String := ["task_ref", "merge_order", "lanes", "downstream"]

/-- A field has a shape. -/
def checkField (key : String) (shape : Json → Bool) (what : String) : Check :=
  require ((data.get? key).any shape)
    { template := "lane manifest " ++ key ++ " must be " ++ what }

/-- `landing_policy` of a manifest. -/
def checkLandingPolicy : Check :=
  match data.get? "landing_policy" with
  | none | some .null => .ok ()
  | some (.obj members) => do
    let unknown := ((members.map Prod.fst).filter (· ≠ "no_ff_merge")).insertionSort (· ≤ ·)
    require (unknown = [])
      { template := "lane manifest landing_policy has unknown key(s) %s", args := [.texts unknown] }
    checkSome (fun value => require value.bool?.isSome
      { template := "lane manifest landing_policy.no_ff_merge must be a boolean" })
      (Dict.get? members "no_ff_merge")
  | some _ => .error { template := "lane manifest landing_policy must be an object when present" }

/-- `_validate_integration_branch` -/
def validateIntegrationBranch (value : Json) : Check :=
  require (isNonEmptyStr value ∨ value.arr?.any fun items => items ≠ [] ∧ items.all isNonEmptyStr)
    { template := "lane manifest integration_branch must be a non-empty string or a non-empty " ++
        "list of non-empty strings" }

/-- The names of an array that are not lanes. -/
def unknownLanes (values : List Json) : List String :=
  (values.filterMap Json.str?).filter (· ∉ laneIds)

/-- One entry of `downstream`. Entries that are no strings pass. -/
def checkDownstream : Check := do
  require (entry.1 ∈ laneIds)
    (namedRefusal "downstream references unknown source lane '%s'" entry.1)
  match entry.2 with
  | .arr dependents =>
    require (unknownLanes laneIds dependents = [])
      { template := "lane manifest downstream for lane '%s' references unknown lane(s) %s"
        args := [.text entry.1, .texts (unknownLanes laneIds dependents)] }
  | _ => .error (namedRefusal "downstream for lane '%s' must be a list" entry.1)

/-- A value names a lane. -/
def namesLane (value : Option Json) : Bool :=
  (value.bind Json.str?).any (· ∈ laneIds)

/-- One entry of `heading_to_lane`. -/
def checkHeading : Check := do
  require (Text.strip entry.1 ≠ "")
    { template := "lane manifest heading_to_lane keys must be non-empty strings" }
  require (namesLane laneIds (some entry.2))
    { template := "lane manifest heading_to_lane references unknown lane %s"
      args := [.value (some entry.2)] }

/-- One entry of `routing`. Entries that are no objects pass. -/
def checkRoute (entry : Json × Nat) : Check :=
  match entry.1 with
  | .obj route => require (namesLane laneIds (Dict.get? route "lane"))
      { template := "lane manifest routing[%s] references unknown lane %s"
        args := [.number entry.2, .value (Dict.get? route "lane")] }
  | _ => .ok ()

/-- The matcher fields of a routing hint. -/
def matcherFields : List String := ["heading", "text_prefix", "contains"]

/-- One entry of `plan_routing_hints`. -/
def checkHint (entry : Json × Nat) : Check :=
  match entry.1 with
  | .obj hint => do
    require (namesLane laneIds (Dict.get? hint "lane"))
      { template := "lane manifest plan_routing_hints[%s] references unknown lane %s"
        args := [.number entry.2, .value (Dict.get? hint "lane")] }
    checkAll (fun field => checkShape isNonEmptyStr
      { template := "lane manifest plan_routing_hints[%s].%s must be a non-empty string when present"
        args := [.number entry.2, .text field] } (Dict.get? hint field)) matcherFields
    require (∃ field ∈ matcherFields, (Dict.get? hint field).getD .null ≠ .null)
      { template := "lane manifest plan_routing_hints[%s] must define at least one matcher field"
        args := [.number entry.2] }
  | _ => .error { template := "lane manifest plan_routing_hints entries must be objects" }

/-- The shapes of the fields of the manifest. -/
def checkShapes : Check := do
  checkAll (requireKey data "top-level") requiredTopLevelKeys
  checkField data "merge_order" (fun value => value.arr?.isSome) "a list"
  checkField data "lanes" (fun value => value.obj?.isSome) "an object"
  checkField data "downstream" (fun value => value.obj?.isSome) "an object"
  checkLandingPolicy data
  checkSome validateIntegrationBranch (data.get? "integration_branch")
  checkShape isNonEmptyStr
    { template := "lane manifest task_plan_path must be a non-empty string when present" }
    (data.get? "task_plan_path")
  checkShape (fun value => value.obj?.isSome)
    { template := "lane manifest heading_to_lane must be an object when present" }
    (data.get? "heading_to_lane")
  checkShape (fun value => value.arr?.isSome)
    { template := "lane manifest plan_routing_hints must be a list when present" }
    (data.get? "plan_routing_hints")

/-- The entries that refer to lanes by name. -/
def checkReferences (laneIds : List String) : Check := do
  checkAll (checkHeading laneIds) (members data "heading_to_lane")
  checkAll (checkRoute laneIds) (elements data "routing").zipIdx
  checkAll (checkHint laneIds) (elements data "plan_routing_hints").zipIdx

/-- `validate_manifest` -/
def validateManifest (data : Fields) : Check := do
  checkShapes data
  let lanes := members data "lanes"
  let laneIds := lanes.map Prod.fst
  require (unknownLanes laneIds (elements data "merge_order") = [])
    { template := "lane manifest merge_order references unknown lane(s) %s"
      args := [.texts (unknownLanes laneIds (elements data "merge_order"))] }
  checkAll (fun entry => checkLane host entry.1 entry.2) lanes
  checkAll (checkDownstream laneIds) (members data "downstream")
  let dependsOn ← validateDependsOn (data.get? "depends_on") laneIds
  let (pairs, colours) ← validateConflictKeys data laneIds
  validateOwnedPathCollisionFreedom host lanes dependsOn pairs colours
  validateStateKeyConflictFreedom lanes dependsOn
  checkReferences data laneIds

end Workbay.Manifest
