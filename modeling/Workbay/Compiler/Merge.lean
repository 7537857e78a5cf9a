import Workbay.Compiler.WorkItems
import Workbay.Graph.UnionFind

/-!
# Merging work items into lanes

Items that share a root, or that an operator fuses, go to one lane. Lanes whose roots still overlap
are refused, or joined by conflict edges that are coloured.
-/

namespace Workbay.Compiler

open Workbay.Manifest Workbay.Graph

/-! ## Classes -/

variable (byId : Items)

/-- The pairs of items that share a root: the least one with every other one. -/
def rootPairs : List (String × String) :=
  let ids := sortedIds byId
  let roots := ((ids.flatMap (rootsOfItem byId)).dedup).insertionSort (· ≤ ·)
  roots.flatMap fun root =>
    match ids.filter fun itemId => root ∈ rootsOfItem byId itemId with
    | [] => []
    | anchor :: others => others.map fun other => (anchor, other)

/-- One entry of `fuse_with`. -/
def fusePartner (itemId : String) (partner : Json) :
    Except Refusal (String × String) :=
  match partner with
  | .str name =>
    if (byId.get? name).isSome then .ok (itemId, name)
    else .error
      { template := "operator %s fuse_with references unknown id %s"
        args := [.text itemId, .value (some partner)] }
  | _ => .error
      { template := "operator %s fuse_with references unknown id %s"
        args := [.text itemId, .value (some partner)] }

/-- `_build_union` -/
def buildUnion : Except Refusal (Dict String String) :=
  match readOperators byId "fuse_with" (fusePartner byId) with
  | .error refusal => .error refusal
  | .ok fused => .ok (unionAll (singletons (sortedIds byId)) (rootPairs byId ++ fused.flatten))

/-- `min(members)` -/
def minOf (members : List String) : String := (members.insertionSort (· ≤ ·)).headD ""

/-- `_UnionFind.components`: the members of every root. -/
def components (parent : Dict String String) : Dict String (List String) :=
  let members := (parent.map Prod.fst).insertionSort (· ≤ ·)
  (Dict.group ((rootsOf parent members).map fun (member, root) => (root, member))).insertionSort
    fun a b => minOf a.2 ≤ minOf b.2

variable (classes : Dict String (List String))

/-- `_canonical_map`: every member with the least member of its class. -/
def canonicalMap : Dict String String :=
  classes.flatMap fun (_, members) => members.map fun member => (member, minOf members)

/-- The lane of an item. -/
def laneOf (canon : Dict String String) (itemId : String) : String := canon.getD itemId itemId

/-- The members of every lane. -/
def membersByLane (canon : Dict String String) : Dict String (List String) :=
  (Dict.group (canon.map fun (member, lane) => (lane, member))).map fun (lane, members) =>
    (lane, members.insertionSort (· ≤ ·))

/-- The backend that an item declares. -/
def declaredBackend? (itemId : String) : Option String :=
  match Dict.get? (itemOf byId itemId) "preferred_backend" with
  | some (.str backend) => if Text.strip backend = "" then none else some (Text.strip backend)
  | _ => none

/-- The members of one class declare at most one backend. -/
def checkPreferredBackends (members : List String) : Check :=
  let declared := (members.filterMap (declaredBackend? byId)).dedup.insertionSort (· ≤ ·)
  require (declared.length ≤ 1)
    { template := "component %s members %s has conflicting preferred_backend values: " ++
        "; ".intercalate (declared.map fun _ => "%s declared by %s")
      args := [.text (minOf members), .texts members] ++ declared.flatMap fun backend =>
        [.text backend, .texts (members.filter fun member =>
          declaredBackend? byId member = some backend)] }

/-- `_validate_component_preferred_backends` -/
def validateComponentPreferredBackends :
    Check :=
  checkAll (fun entry => checkPreferredBackends byId (entry.2.insertionSort (· ≤ ·))) classes

/-! ## Owned paths -/

/-- `_lane_owned_paths`: the roots of the members, without the whole tree if there are others. -/
def laneOwnedPaths (members : List String) : List String :=
  let roots := (members.flatMap (rootsOfItem byId)).dedup
  let kept := if "" ∈ roots ∧ 1 < roots.length then roots.filter (· ≠ "") else roots
  kept.insertionSort (· ≤ ·)

/-- `_enforce_max_lane_files` -/
def enforceMaxLaneFiles
    (maxFiles : Option Int) : Check :=
  checkSome (fun limit : Int => do
    require (1 ≤ limit) { template := "WORKBAY_COMPILER_MAX_LANE_FILES must be >= 1 when set" }
    checkAll (fun entry => require (((laneOwnedPaths byId entry.2).length : Int) ≤ limit)
      { template := "lane %s owns %s paths exceeding WORKBAY_COMPILER_MAX_LANE_FILES=%s"
        args := [.text (minOf entry.2), .number (laneOwnedPaths byId entry.2).length,
          .number limit] }) classes) maxFiles

/-! ## Collisions -/

/-- `_depends_reaches`: the source depends on the destination, directly or not. -/
def dependsReaches (dependsOn : Dict String (List String)) (src dst : String) : Bool :=
  src = dst || dst ∈ visit (dependsOn.map Prod.fst) (successors dependsOn) (successors dependsOn src)

/-- `_lanes_comparable` -/
def lanesComparable (dependsOn : Dict String (List String)) (a b : String) : Bool :=
  a = b || dependsReaches dependsOn a b || dependsReaches dependsOn b a

/-- Two items with the roots at which they collide. -/
structure Collision where
  left : String
  right : String
  leftRoot : String
  rightRoot : String

/-- The collisions of two items: their classes differ, their lanes are not ordered, and their roots
overlap without being equal. -/
def collisionsOf (parent : Dict String String) (canon : Dict String String)
    (dependsOn : Dict String (List String)) (pair : String × String) : List Collision :=
  if (find parent pair.1).2 = (find parent pair.2).2 then []
  else if lanesComparable dependsOn (laneOf canon pair.1) (laneOf canon pair.2) then []
  else (rootsOfItem byId pair.1).flatMap fun leftRoot =>
    (rootsOfItem byId pair.2).filterMap fun rightRoot =>
      if leftRoot ≠ rightRoot ∧ ownedPathRootsOverlap leftRoot rightRoot then
        some { left := pair.1, right := pair.2, leftRoot, rightRoot }
      else none

/-- The lanes of a collision, the smaller one first. -/
def Collision.lanes (canon : Dict String String) (collision : Collision) : String × String :=
  unordered (laneOf canon collision.left) (laneOf canon collision.right)

/-- `_refuse_parent_child_collisions`: no collision, or the lanes that collide. -/
def refuseParentChildCollisions (parent canon : Dict String String)
    (dependsOn : Dict String (List String)) (allowConflictWaves : Bool) :
    Except Refusal (List (String × String)) :=
  let found := (pairsOf (sortedIds byId)).flatMap (collisionsOf byId parent canon dependsOn)
  if allowConflictWaves then
    .ok (sortedPairs ((found.map (Collision.lanes canon)).filter fun pair => pair.1 ≠ pair.2))
  else match found with
    | [] => .ok []
    | collision :: _ => .error
        { template := "parent/child owned-path collision between %s (%s) and %s (%s) without " ++
            "fuse_with. Remedies: (1) repartition owned file_paths so roots neither nest nor " ++
            "collide; (2) fuse the items with operator fuse_with; (3) order them with operator " ++
            "depends_on so the overlap is comparable."
          args := [.text collision.left, .text collision.leftRoot, .text collision.right,
            .text collision.rightRoot] }
where
  /-- `sorted` of a set of pairs. -/
  sortedPairs (pairs : List (String × String)) : List (String × String) :=
    pairs.dedup.insertionSort fun a b => a.1 < b.1 ∨ (a.1 = b.1 ∧ a.2 ≤ b.2)

/-! ## Colours -/

/-- The lanes that a lane conflicts with. -/
def neighbours (pairs : List (String × String)) (lane : String) : List String :=
  (pairs.filterMap fun (a, b) =>
    if a = lane then some b else if b = lane then some a else none).dedup

/-- The least colour that is not forbidden. -/
def firstFree (forbidden : List Nat) : Nat :=
  ((List.range (forbidden.length + 1)).find? (· ∉ forbidden)).getD 0

/-- First-fit colouring in a given order. -/
def colourInOrder (pairs : List (String × String)) (order : List String) : Dict String Nat :=
  order.foldl (fun colours lane =>
    colours.set lane (firstFree ((neighbours pairs lane).filterMap (Dict.get? colours)))) []

/-- `partition_conflicts`: the conflict edges and a colour for every lane. The pairs are distinct
pairs of lanes; the measures of the conflict graph are not returned. -/
def partitionConflicts (laneIds : List String) (pairs : List (String × String))
    (maxConflictDegree : Option Int) :
    Except Refusal (List (String × String) × Dict String Nat) := do
  let lanes := laneIds.dedup.insertionSort (· ≤ ·)
  let degree := fun lane => (neighbours pairs lane).length
  checkSome (fun limit : Int => do
    require (0 ≤ limit) { template := "max_conflict_degree must be >= 0 when set" }
    checkAll (fun lane => require ((degree lane : Int) ≤ limit)
      { template := "lane %s conflicts with %s others (max_conflict_degree=%s); Remedies: narrow " ++
          "your owned file_paths so the lane prefixes fewer peers, or raise max_conflict_degree / " ++
          "WORKBAY_COMPILER_MAX_CONFLICT_DEGREE."
        args := [.text lane, .number (degree lane), .number limit] }) lanes) maxConflictDegree
  let order := lanes.insertionSort fun a b => degree b < degree a ∨ (degree a = degree b ∧ a ≤ b)
  return (pairs, colourInOrder pairs order)

end Workbay.Compiler

/-!
## Edges and state keys

The prerequisites of every lane, and the state keys that it writes and reads, from the operator
items. Every name goes through the lane of its item.
-/

namespace Workbay.Compiler

open Workbay.Manifest

/-- What the operator items say about the lanes. -/
structure Edges where
  dependsOn : Dict String (List String)
  stateWrites : Dict String (List String)
  stateReads : Dict String (List String)

/-- One entry of `depends_on`: the lane that waits and the lane that it waits for. -/
def readDependency (canon : Dict String String) (itemId : String) (dep : Json) :
    Except Refusal (String × String) :=
  match dep with
  | .str name =>
    if (canon.get? name).isSome then .ok (laneOf canon itemId, laneOf canon name)
    else .error
      { template := "operator %s depends_on references unknown id %s"
        args := [.text itemId, .value (some dep)] }
  | _ => .error
      { template := "operator %s depends_on references unknown id %s"
        args := [.text itemId, .value (some dep)] }

/-- One entry of `produces` or `consumes`: the lane and the key. -/
def readStateKey (field : String) (canon : Dict String String) (itemId : String) :
    Json → Except Refusal (String × String)
  | .str key =>
    if Text.strip key = "" then .error
      { template := "operator %s %s entries must be non-empty strings"
        args := [.text itemId, .text field] }
    else .ok (laneOf canon itemId, key)
  | _ => .error
      { template := "operator %s %s entries must be non-empty strings"
        args := [.text itemId, .text field] }

/-- The values of every lane, each once and sorted, in the order of the lanes. -/
def collect (pairs : List (String × String)) : Dict String (List String) :=
  sortedEntries ((Dict.group pairs).map fun (lane, values) =>
    (lane, values.dedup.insertionSort (· ≤ ·)))

/-- The lanes that consume a key, each with every lane that produces it. -/
def consumerPairs (produced consumed : List (String × String)) : List (String × String) :=
  consumed.flatMap fun (lane, key) =>
    (produced.filter fun entry => entry.2 = key).map fun entry => (lane, entry.1)

/-- `_derive_edges_and_state` -/
def deriveEdgesAndState (byId : Items) (canon : Dict String String) : Except Refusal Edges := do
  let declared ← readOperators byId "depends_on" (readDependency canon)
  let produced ← readOperators byId "produces" (readStateKey "produces" canon)
  let consumed ← readOperators byId "consumes" (readStateKey "consumes" canon)
  let pairs := declared.flatten ++ consumerPairs produced.flatten consumed.flatten
  return {
    dependsOn := collect (pairs.filter fun pair => pair.1 ≠ pair.2)
    stateWrites := collect produced.flatten
    stateReads := collect consumed.flatten }

/-- `_downstream_from_depends_on`: for every lane, the lanes that declare it. -/
def downstreamFromDependsOn (laneIds : List String) (dependsOn : Dict String (List String)) :
    Dict String (List String) :=
  laneIds.map fun laneId =>
    (laneId, (((dependsOn.filter fun entry => entry.1 ∈ laneIds ∧ laneId ∈ entry.2).map
      Prod.fst).dedup).insertionSort (· ≤ ·))

end Workbay.Compiler
