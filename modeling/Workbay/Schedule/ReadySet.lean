import Workbay.Graph.Visit
import Mathlib.Data.List.Dedup
import Mathlib.Data.List.Sort
import Mathlib.Data.Prod.Lex
import Mathlib.Data.String.Basic

/-!
# The ready set

The slack of every lane and the lanes that every path to some other lane goes through. Lanes are
given in the order of their names, with their prerequisites.
-/

namespace Workbay.Schedule

open Workbay.Graph

/-- The prerequisites of the lanes. -/
abbrev DependsOn := Dict String (List String)

/-- The prerequisites of a lane. -/
def prereqsOf (dependsOn : DependsOn) (laneId : String) : List String :=
  dependsOn.getD laneId []

variable (laneIds : List String)

/-- `_declared_depends_on`: lanes and prerequisites that are declared. -/
def declaredDependsOn (dependsOn : DependsOn) : DependsOn :=
  (dependsOn.filter fun entry => entry.1 ∈ laneIds).map fun (lane, prereqs) =>
    (lane, prereqs.filter (· ∈ laneIds))

/-- `_scheduling_forward`: the dependents of a lane. -/
def schedulingForward (dependsOn : DependsOn) (laneId : String) :
    List String :=
  dependsOn.flatMap fun (lane, prereqs) =>
    if lane ∈ laneIds then
      (prereqs.filter fun prereq => prereq = laneId ∧ prereq ≠ lane).map fun _ => lane
    else []

/-! ## Layers and slack -/

/-- A lane that waits for one prerequisite less, with the lanes that wait for none any more. -/
def lower (state : Dict String Int × List String) (child : String) :
    Dict String Int × List String :=
  let left := state.1.getD child 0 - 1
  (state.1.set child left, if left = 0 then state.2 ++ [child] else state.2)

/-- Layer after layer, each sorted, with what every lane still waits for in the end. -/
def layersFrom (forward : String → List String) :
    Nat → Dict String Int → List String → List (List String) × Dict String Int
  | 0, indegree, _ => ([], indegree)
  | _ + 1, indegree, [] => ([], indegree)
  | fuel + 1, indegree, layer =>
    let state := (layer.flatMap forward).foldl lower (indegree, [])
    let (layers, left) :=
      layersFrom forward fuel state.1 (state.2.dedup.insertionSort (· ≤ ·))
    (layer :: layers, left)

/-- `compute_layers`: the layers, or the lanes that still wait because of a cycle. A lane is in one
layer only, so that there are no more layers than lanes. -/
def computeLayers (dependsOn : DependsOn) :
    Except (List String) (List (List String)) :=
  let declared := declaredDependsOn laneIds dependsOn
  let indegree := laneIds.map fun laneId =>
    (laneId, (((prereqsOf declared laneId).dedup.length : Nat) : Int))
  let frontier := (indegree.filter fun entry => entry.2 = 0).map Prod.fst
  let (layers, left) := layersFrom (schedulingForward laneIds declared) laneIds.length indegree
    (frontier.insertionSort (· ≤ ·))
  if layers.flatten.length = laneIds.length then .ok layers
  else .error ((laneIds.filter fun laneId => 0 < left.getD laneId 0).insertionSort (· ≤ ·))

/-- The longest chain below a lane. `_remaining_chain_lengths` remembers the lengths that it has
computed, and is called on graphs without cycles. -/
def chainFrom (forward : String → List String) : Nat → String → Nat
  | 0, _ => 0
  | fuel + 1, laneId =>
    (forward laneId).foldl (fun best child => max best (1 + chainFrom forward fuel child)) 0

/-- The longest chain above every lane, from layer to layer. -/
def prefixLengths (forward : String → List String) (lanes : List String) : Dict String Nat :=
  lanes.foldl (fun lengths laneId =>
      (forward laneId).foldl (fun lengths child =>
        lengths.set child
          (max (lengths.getD child 0) (lengths.getD laneId 0 + 1))) lengths)
    (lanes.map fun laneId => (laneId, 0))

/-- `compute_slack`: how much longer the longest chain is than the longest one through the lane. -/
def computeSlack (dependsOn : DependsOn) :
    Except (List String) (Dict String Int) :=
  (computeLayers laneIds dependsOn).map fun layers =>
    let forward := schedulingForward laneIds (declaredDependsOn laneIds dependsOn)
    let lengths := prefixLengths forward layers.flatten
    let through := fun laneId =>
      lengths.getD laneId 0 + chainFrom forward laneIds.length laneId
    let longest := (layers.flatten.map through).foldl max 0
    (layers.flatten.insertionSort (· ≤ ·)).map fun laneId =>
      (laneId, (longest : Int) - (through laneId : Int))

/-! ## Bottlenecks -/

/-- `_dependency_roots` -/
def dependencyRoots (dependsOn : DependsOn) : List String :=
  laneIds.filter fun laneId => ¬ ∃ prereq ∈ prereqsOf dependsOn laneId, prereq ∈ laneIds

/-- `_reachable_from_roots`: what is reached without a forbidden lane. -/
def reachableFromRoots (laneIds roots : List String) (forward : String → List String)
    (forbidden : Option String) : List String :=
  let allowed := fun laneId => some laneId ≠ forbidden
  visit laneIds (fun laneId => (forward laneId).filter allowed) (roots.filter allowed)

/-- `_directed_critical_lanes` -/
def directedCriticalLanes (dependsOn : DependsOn) : List String :=
  if laneIds.length < 2 then []
  else
    let forward := schedulingForward laneIds dependsOn
    let roots := dependencyRoots laneIds dependsOn
    let baseline := reachableFromRoots laneIds roots forward none
    laneIds.filter fun x =>
      let reachable := reachableFromRoots laneIds roots forward (some x)
      ∃ laneId ∈ laneIds, laneId ≠ x ∧ laneId ∉ reachable ∧ laneId ∈ baseline

/-! ## Readiness -/

/-- Every lane that a lane waits for, directly or not, is satisfied. -/
def transitivePrereqsSatisfied (dependsOn : DependsOn) (satisfied : List String)
    (laneId : String) : Bool :=
  ((visit (dependsOn.map Prod.fst) (prereqsOf dependsOn) (prereqsOf dependsOn laneId)).filter
    (· ≠ laneId)).all (· ∈ satisfied)

/-- `compute_ready_set`: the lanes that are ready, each with its criticality. -/
def computeReadySet (dependsOn : DependsOn) (satisfied : List String) :
    List (String × Bool) :=
  let critical := directedCriticalLanes laneIds (declaredDependsOn laneIds dependsOn)
  (laneIds.filter (transitivePrereqsSatisfied dependsOn satisfied)).map fun laneId =>
    (laneId, decide (laneId ∈ critical))

/-! ## The order of dispatch -/

/-- `_descendant_counts`: how many lanes depend on a lane, also through others. -/
def descendantCount (dependsOn : DependsOn) (laneId : String) : Nat :=
  let forward := schedulingForward laneIds dependsOn
  (reachableFromRoots laneIds (forward laneId) forward (some laneId)).length

/-- The sort key of `dispatch_order` -/
def dispatchKey (dependsOn : DependsOn) (laneId : String) : ℕᵒᵈ ×ₗ ℕᵒᵈ ×ₗ String :=
  let chain := chainFrom (schedulingForward laneIds dependsOn) laneIds.length laneId
  toLex (.toDual chain, toLex (.toDual (descendantCount laneIds dependsOn laneId), laneId))

/-- `dispatch_order` -/
def dispatchOrder (dependsOn : DependsOn) : List String :=
  let key := dispatchKey laneIds (declaredDependsOn laneIds dependsOn)
  laneIds.insertionSort fun a b => key a ≤ key b

end Workbay.Schedule
