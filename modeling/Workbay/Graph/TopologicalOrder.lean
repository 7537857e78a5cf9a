import Mathlib.Data.List.Sort
import Mathlib.Logic.Relation
import Workbay.Data.Dict

/-!
# A topological order

Kahn's algorithm with a sorted list of ready vertices. `prereqs` gives every vertex the vertices
that it waits for; prerequisites that are no vertices do not count.
-/

namespace Workbay.Graph

variable {α : Type} [LinearOrder α]

variable (vertices : List α)

variable (prereqs : Dict α (List α))

/-- How many prerequisites of a vertex there are, each as often as it is listed. -/
def indegreeOf (x : α) : Int :=
  ((prereqs.getD x []).countP (· ∈ vertices) : Nat)

/-- The prerequisites of a vertex that count. -/
def prereqsOf (x : α) : List α :=
  (prereqs.getD x []).filter (· ∈ vertices)

/-- The vertices that wait for a vertex, each as often as it lists it, sorted. -/
def dependentsOf (x : α) : List α :=
  (prereqs.flatMap fun (consumer, xs) =>
    if consumer ∈ vertices then (xs.filter (· = x)).map fun _ => consumer else []).insertionSort
      (· ≤ ·)

/-- One dependent waits for one prerequisite less, and may become ready. -/
def release (state : Dict α Int × List α) (child : α) : Dict α Int × List α :=
  let left := state.1.getD child 0 - 1
  (state.1.set child left,
    if left = 0 then (state.2 ++ [child]).insertionSort (· ≤ ·) else state.2)

/-- Take ready vertices, the first one first, and release their dependents. -/
def kahn (dependents : α → List α) :
    Nat → Dict α Int → List α → List α → List α
  | 0, _, _, order => order
  | _ + 1, _, [], order => order
  | fuel + 1, indegree, node :: ready, order =>
    let state := (dependents node).foldl release (indegree, ready)
    kahn dependents fuel state.1 state.2 (order ++ [node])

/-- Prerequisites before dependents; what is left of a cycle comes last, sorted. -/
def topologicalOrder : List α :=
  let indegree := vertices.map fun x => (x, indegreeOf vertices prereqs x)
  let ready := (vertices.filter fun x => indegreeOf vertices prereqs x = 0).insertionSort (· ≤ ·)
  let order := kahn (dependentsOf vertices prereqs) vertices.length indegree ready []
  if order.length = vertices.length then order
  else order ++ (vertices.filter (· ∉ order)).insertionSort (· ≤ ·)

end Workbay.Graph

/-!
## Peeling a graph

Vertices that wait for nothing that is left are taken, in rounds and sorted within a round. Where all
that is left waits, the least vertex is taken, so that a cycle does not stop the peeling.
-/

namespace Workbay.Graph

variable {α κ : Type} [DecidableEq α] [LinearOrder κ]

/-- The first vertex with the least key. -/
def leastBy (key : α → κ) : List α → Option α
  | [] => none
  | x :: xs =>
    match leastBy key xs with
    | some y => if key y < key x then some y else some x
    | none => some x

/-- The vertices that wait for nothing that is left, sorted. -/
def readyOf (key : α → κ) (waitsFor : α → α → Bool) (left : List α) : List α :=
  (left.filter fun x => !left.any fun y => waitsFor x y).insertionSort fun x y => key x ≤ key y

/-- The vertices that a round takes. -/
def roundOf (key : α → κ) (waitsFor : α → α → Bool) (left : List α) : List α :=
  match readyOf key waitsFor left with
  | [] => (leastBy key left).toList
  | x :: xs => x :: xs

/-- The order in which vertices are taken. -/
def peelFrom (key : α → κ) (waitsFor : α → α → Bool) : Nat → List α → List α
  | 0, _ => []
  | fuel + 1, left =>
    if left = [] then []
    else roundOf key waitsFor left ++
      peelFrom key waitsFor fuel (left.filter fun x => x ∉ roundOf key waitsFor left)

/-- Every round takes a vertex. -/
def peel (key : α → κ) (waitsFor : α → α → Bool) (vertices : List α) : List α :=
  peelFrom key waitsFor vertices.length vertices

end Workbay.Graph
