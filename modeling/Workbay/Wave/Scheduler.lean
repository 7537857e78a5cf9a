import Mathlib.Algebra.GroupWithZero.Nat
import Workbay.Data.Dict
import Workbay.Data.FnMatch
import Mathlib.Data.List.Sort
import Mathlib.Data.List.Lex
import Mathlib.Data.List.DropRight
import Mathlib.Data.String.Basic

/-!
# Wave validation and scheduling

Dependency edges describe precedence. Owned-path overlaps form a separate conflict graph and only
constrain which lanes run together; they never add edges.
-/

namespace Workbay.Wave

abbrev LaneId := String

/-- The state of a lane. -/
inductive LaneStatus where
  | pending
  | running
  | collected
  | gated
  | integrated
  | failed
  | parked
deriving DecidableEq

namespace LaneStatus

/-- `_CONFLICT_HOLDING_STATES` -/
def isConflictHolding : LaneStatus → Bool
  | .running | .collected | .gated => true
  | _ => false

/-- `_BLOCKING_STATES` -/
def isBlocking : LaneStatus → Bool
  | .failed | .parked => true
  | _ => false

/-- The states in which the supervisor is done with a lane. -/
def isTerminal : LaneStatus → Bool
  | .integrated | .failed | .parked => true
  | _ => false

end LaneStatus

/-- The scheduling-relevant declaration for one lane. -/
structure LaneSpec where
  dependsOn : List LaneId
  paths : List String
  weight : Nat
  dependsOn_sorted : dependsOn.Pairwise (· < ·)
  paths_sorted : paths.Pairwise (· < ·)
  dependsOn_ne : "" ∉ dependsOn
  paths_ne : "" ∉ paths

/-- An immutable, normalized wave: lanes are sorted by their non-empty ids. -/
structure WaveSpec where
  wave : String
  lanes : List (LaneId × LaneSpec)
  lanes_sorted : (lanes.map Prod.fst).Pairwise (· < ·)
  lanes_ne : "" ∉ lanes.map Prod.fst

namespace WaveSpec

variable (spec : WaveSpec)

def laneIds : List LaneId := spec.lanes.map Prod.fst

def lane? (laneId : LaneId) : Option LaneSpec := Dict.get? spec.lanes laneId

/-- The dependencies of a lane; a lane that the spec does not have depends on nothing. -/
def dependsOn (laneId : LaneId) : List LaneId :=
  match spec.lane? laneId with
  | some lane => lane.dependsOn
  | none => []

/-- The owned paths of a lane. -/
def paths (laneId : LaneId) : List String :=
  match spec.lane? laneId with
  | some lane => lane.paths
  | none => []

/-- The weight of a lane. -/
def weight (laneId : LaneId) : Nat :=
  match spec.lane? laneId with
  | some lane => lane.weight
  | none => 0

/-- The number of dependency edges. -/
def edgeCount : Nat := (spec.lanes.map fun l => l.2.dependsOn.length).sum

end WaveSpec

/-- A typed problem of a wave graph. -/
inductive Problem where
  | selfDependency (laneId : LaneId)
  | danglingDependency (laneId dependency : LaneId)
  | nonCanonicalPath (laneId : LaneId) (path : String)
  | cycle (laneIds : List LaneId)
deriving DecidableEq

/-! ## Validation -/

/-- A path with a backslash, or with an empty, `.` or `..` segment. -/
def nonCanonical (path : String) : Bool :=
  decide ('\\' ∈ path.toList) ||
    (path.toList.splitOn '/').any fun s => s == [] || s == ['.'] || s == ['.', '.']

variable (spec : WaveSpec)

def nonCanonicalOwnedPaths : List Problem :=
  spec.lanes.flatMap fun l =>
    (l.2.paths.filter nonCanonical).map fun path => .nonCanonicalPath l.1 path

/-- The lanes that depend on a lane, itself excluded, in order. -/
def adjacency (laneId : LaneId) : List LaneId :=
  (spec.lanes.filter fun l => decide (laneId ∈ l.2.dependsOn ∧ laneId ≠ l.1)).map Prod.fst

/-- The depth-first search for cycles: colors (1 on the path, 2 finished), the current path, the
stack of nodes with the children that are left, and the cycles found, each in its least rotation. -/
structure CycleSearch where
  color : Dict LaneId Nat
  path : List LaneId
  stack : List (LaneId × List LaneId)
  cycles : List (List LaneId)

/-- The least rotation of a cycle. -/
def leastRotation (cycle : List LaneId) : List LaneId :=
  let rotations := (List.range cycle.length).map fun i => cycle.drop i ++ cycle.take i
  rotations.foldl min cycle

/-- Enter a node: color it, put it on the path and push its children. -/
def CycleSearch.enter (s : CycleSearch) (node : LaneId) : CycleSearch :=
  { s with
    color := s.color.set node 1
    path := s.path ++ [node]
    stack := (node, adjacency spec node) :: s.stack }

/-- One turn of the search loop; nothing is left to do when the stack is empty. -/
def CycleSearch.turn (s : CycleSearch) : CycleSearch :=
  match s.stack with
  | [] => s
  | (node, []) :: stack =>
    { s with color := s.color.set node 2, path := s.path.dropLast, stack := stack }
  | (node, child :: children) :: stack =>
    let s := { s with stack := (node, children) :: stack }
    match Dict.getD s.color child 0 with
    | 0 => s.enter spec child
    | 1 =>
      let cycle := leastRotation (s.path.dropWhile (· ≠ child))
      if cycle ∈ s.cycles then s else { s with cycles := cycle :: s.cycles }
    | _ => s

/-- The search from one root: every node is entered once, and every edge looked at once. -/
def CycleSearch.root (spec : WaveSpec) (s : CycleSearch) (root : LaneId) : CycleSearch :=
  if s.color.getD root 0 ≠ 0 then s
  else (CycleSearch.turn spec)^[spec.lanes.length + spec.edgeCount] (s.enter spec root)

/-- Deterministic, ordered cycles, self edges excluded. -/
def cycleProblems : List Problem :=
  let s := spec.laneIds.foldl (CycleSearch.root spec) ⟨[], [], [], []⟩
  (s.cycles.insertionSort (· ≤ ·)).map .cycle

/-- Typed graph problems; an empty list means that the graph is valid. -/
def validate : List Problem :=
  let dependencies := spec.lanes.flatMap fun l =>
    l.2.dependsOn.filterMap fun dependency =>
      if dependency = l.1 then some (.selfDependency l.1)
      else if dependency ∉ spec.laneIds then some (.danglingDependency l.1 dependency)
      else none
  dependencies ++ nonCanonicalOwnedPaths spec ++ cycleProblems spec

/-! ## Orders -/

/-- The children of a lane: the lanes that depend on it, in order. -/
def forward (laneId : LaneId) : List LaneId :=
  (spec.lanes.filter fun l => decide (laneId ∈ l.2.dependsOn)).map Prod.fst

/-- The loop of Kahn's algorithm; the heap is a sorted list. -/
def kahn (children : LaneId → List LaneId) :
    Nat → List LaneId → Dict LaneId Int → List LaneId → List LaneId
  | 0, _, _, order => order
  | _, [], _, order => order
  | fuel + 1, laneId :: ready, indegree, order =>
    let (ready, indegree) := (children laneId).foldl
      (fun (ready, indegree) child =>
        let degree := indegree.getD child 0 - 1
        (if degree = 0 then ready.orderedInsert (· ≤ ·) child else ready,
          indegree.set child degree))
      (ready, indegree)
    kahn children fuel ready indegree (order ++ [laneId])

/-- A lane-id-tied Kahn order, or `none` for an invalid graph. -/
def topologicalOrder : Option (List LaneId) :=
  if validate spec ≠ [] then none
  else
    let indegree : Dict LaneId Int := spec.lanes.map fun l => (l.1, (l.2.dependsOn.length : Int))
    let ready := (indegree.filter fun d => d.2 = 0).map Prod.fst
    let order := kahn (forward spec) spec.lanes.length
      (ready.insertionSort (· ≤ ·)) indegree []
    if order.length = spec.lanes.length then some order else none

/-! ## Conflicts -/

def isMagic (c : Char) : Bool := c = '*' || c = '?' || c = '['

def globLiteralPrefix (pattern : String) : List Char := pattern.toList.takeWhile fun c => !isMagic c

/-- Whether two owned paths can own a common file. -/
def pathOverlap (left right : String) : Bool :=
  if left = right then true
  else
    let leftDir := left.toList.rdropWhile (· = '/')
    let rightDir := right.toList.rdropWhile (· = '/')
    if leftDir ≠ [] ∧ rightDir ≠ [] ∧
        (leftDir = rightDir ∨ (rightDir ++ ['/']) <+: leftDir ∨ (leftDir ++ ['/']) <+: rightDir) then
      true
    else if FnMatch.fnmatchcase left right || FnMatch.fnmatchcase right left then true
    else if !(left.toList.any isMagic) || !(right.toList.any isMagic) then false
    else
      decide (globLiteralPrefix right <+: globLiteralPrefix left ∨
        globLiteralPrefix left <+: globLiteralPrefix right)

/-- Pairwise path overlaps, each as its ids in order, or the first path that is not canonical. -/
def conflicts (spec : WaveSpec) : Except Problem (List (LaneId × LaneId)) :=
  match nonCanonicalOwnedPaths spec with
  | problem :: _ => .error problem
  | [] =>
    .ok <| spec.laneIds.tails.flatMap fun
      | [] => []
      | leftId :: rest =>
        (rest.filter fun rightId =>
          (spec.paths leftId).any fun leftPath =>
            (spec.paths rightId).any fun rightPath => pathOverlap leftPath rightPath).map
          fun rightId => (leftId, rightId)

/-- Whether the unordered pair of two lanes is among the conflicts. -/
def inConflict (pairs : List (LaneId × LaneId)) (a b : LaneId) : Bool :=
  decide ((a, b) ∈ pairs ∨ (b, a) ∈ pairs)

/-! ## Blocking -/

/-- The breadth-first search for the failed or parked ancestors of a lane, with their distances. -/
def blockers (spec : WaveSpec) (states : Dict LaneId LaneStatus) :
    Nat → List (LaneId × Nat) → List LaneId → List (Nat × LaneId) → List (Nat × LaneId)
  | 0, _, _, candidates => candidates
  | _, [], _, candidates => candidates
  | fuel + 1, (ancestor, distance) :: queue, seen, candidates =>
    if ancestor ∈ seen then blockers spec states fuel queue seen candidates
    else
      let candidates :=
        if (states.getD ancestor .pending).isBlocking then candidates ++ [(distance, ancestor)]
        else candidates
      let next := (spec.dependsOn ancestor).map fun dependency => (dependency, distance + 1)
      blockers spec states fuel (queue ++ next) (ancestor :: seen) candidates

/-- The lexicographic order of `(distance, lane id)` pairs. -/
def nearer (a b : Nat × LaneId) : Bool := decide (a.1 < b.1 ∨ (a.1 = b.1 ∧ a.2 ≤ b.2))

variable (states : Dict LaneId LaneStatus)

/-- Map each descendant of failed or parked work to its nearest blocking ancestor; among equally
near ones the least lane id. -/
def blocked : Dict LaneId LaneId :=
  if validate spec ≠ [] then []
  else
    spec.lanes.filterMap fun l =>
      let queue := l.2.dependsOn.map fun dependency => (dependency, 1)
      match blockers spec states (2 * spec.edgeCount + 1) queue [] [] with
      | [] => none
      | first :: rest =>
        some (l.1, (rest.foldl (fun best c => if nearer best c then best else c) first).2)

/-! ## The frontier -/

/-- The number of edges on the longest path from each lane to a sink. -/
def remainingPathLengths (order : List LaneId) : Dict LaneId Nat :=
  order.reverse.foldl
    (fun remaining laneId =>
      remaining.set laneId
        (((forward spec laneId).map fun child => remaining.getD child 0 + 1).foldl max 0))
    []

/-- Take lanes in order, leaving out those that conflict with one taken before. -/
def selectConflictFree (pairs : List (LaneId × LaneId)) (candidates : List LaneId) : List LaneId :=
  candidates.foldl
    (fun selected laneId =>
      if selected.any fun chosen => inConflict pairs laneId chosen then selected
      else selected ++ [laneId])
    []

/-- A pending lane that is not blocked, whose dependencies are integrated and which conflicts with
no busy lane. -/
def isCandidate
    (pairs : List (LaneId × LaneId)) (laneId : LaneId) (lane : LaneSpec) : Bool :=
  decide (states.getD laneId .pending = .pending) &&
    decide (laneId ∉ (blocked spec states).map Prod.fst) &&
    lane.dependsOn.all (fun dependency =>
      decide (states.getD dependency .pending = .integrated)) &&
    !((states.filter fun s => s.2.isConflictHolding).any fun s => inConflict pairs laneId s.1)

/-- A deterministic maximal conflict-free set of ready lanes, cut to `width` if one is given. -/
def frontier (width : Option Int) :
    Except Problem (List LaneId) :=
  match topologicalOrder spec with
  | none => .ok []
  | some order => do
    let pairs ← conflicts spec
    let candidates := (spec.lanes.filter fun l => isCandidate spec states pairs l.1 l.2).map Prod.fst
    let remaining := remainingPathLengths spec order
    let sorted := candidates.insertionSort fun a b =>
      remaining.getD b 0 < remaining.getD a 0 ∨
        (remaining.getD a 0 = remaining.getD b 0 ∧ a ≤ b)
    let selected := selectConflictFree pairs sorted
    match width with
    | none => return selected
    | some width => return selected.take width.toNat

/-- Topologically order the lanes of `done` whose full prerequisite chains are in `done`. -/
def integrationOrder (done : List LaneId) : List LaneId :=
  if validate spec ≠ [] then []
  else
    let lanes := spec.lanes.filter fun l => decide (l.1 ∈ done)
    let indegree : Dict LaneId Int := lanes.map fun l => (l.1, (l.2.dependsOn.length : Int))
    let children := fun laneId =>
      (lanes.filter fun l => decide (laneId ∈ l.2.dependsOn)).map Prod.fst
    let ready := (indegree.filter fun d => d.2 = 0).map Prod.fst
    kahn children spec.lanes.length (ready.insertionSort (· ≤ ·)) indegree []

/-! ## Levels and the critical path -/

/-- The zero-based longest-path layer of each lane, or nothing for an invalid graph. -/
def levels : Dict LaneId Nat :=
  match topologicalOrder spec with
  | none => []
  | some order =>
    let result := order.foldl
      (fun result laneId =>
        Dict.set result laneId
          (if spec.dependsOn laneId = [] then 0
          else 1 + ((spec.dependsOn laneId).map fun dependency =>
            Dict.getD result dependency 0).foldl max 0))
      []
    result.insertionSort fun a b => a.1 ≤ b.1

/-- The heaviest of some lanes by the weights from them on; among equally heavy ones the least id. -/
def heaviest (weightFrom : Dict LaneId Nat) : List LaneId → Option LaneId
  | [] => none
  | first :: rest =>
    some <| rest.foldl
      (fun best laneId =>
        if weightFrom.getD best 0 < weightFrom.getD laneId 0 ∨
            (weightFrom.getD laneId 0 = weightFrom.getD best 0 ∧ laneId < best) then laneId
        else best)
      first

/-- The weight of the heaviest path from each lane on, and the next lane of that path. -/
def pathWeights (order : List LaneId) : Dict LaneId Nat × Dict LaneId LaneId :=
  order.reverse.foldl
    (fun (weightFrom, nextLane) laneId =>
      match heaviest weightFrom (forward spec laneId) with
      | none => (Dict.set weightFrom laneId (spec.weight laneId), nextLane)
      | some best =>
        (Dict.set weightFrom laneId (spec.weight laneId + Dict.getD weightFrom best 0),
          Dict.set nextLane laneId best))
    ([], [])

/-- The path from a lane along the next lanes. -/
def followPath (nextLane : Dict LaneId LaneId) : Nat → LaneId → List LaneId
  | 0, current => [current]
  | fuel + 1, current =>
    match nextLane.get? current with
    | none => [current]
    | some next => current :: followPath nextLane fuel next

/-- A deterministic maximum-weight source-to-sink path. -/
def criticalPath : List LaneId :=
  match topologicalOrder spec with
  | none => []
  | some order =>
    let tables := pathWeights spec order
    let roots := (spec.lanes.filter fun l => decide (l.2.dependsOn = [])).map Prod.fst
    match heaviest tables.1 roots with
    | none => []
    | some current => followPath tables.2 order.length current

end Workbay.Wave
