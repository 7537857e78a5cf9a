import Workbay.Ancestry.Containment

/-!
# The order in which branches are reaped

On the analyzed graph the maximal names have no strict container, and the reap order peels names off
in waves: whoever has lost all its strict containers is in the next wave.
-/

namespace Workbay.Ancestry

/-- The strict containers of a name on a graph. -/
def ContainmentGraph.strict (graph : ContainmentGraph) (name : String) : List String :=
  containersOf graph.strictContainers name

variable (graph : ContainmentGraph)

/-- The names without a strict container, sorted. -/
def ContainmentGraph.maximal : List String :=
  (graph.nodes.filter fun name => graph.strict name = []).insertionSort (· ≤ ·)

/-- `maximal_elements` -/
def maximalElements (order : SetOrder) (containedBy : Dict String (List String)) :
    Except AncestryError (List String) :=
  (analyze order containedBy).map ContainmentGraph.maximal

/-- `incoming`: the names that a name strictly contains. -/
def ContainmentGraph.incoming (name : String) : List String :=
  graph.nodes.filter fun predecessor => name ∈ graph.strict predecessor

/-- A strict container of a name is emitted; the state is `remaining_out` and `newly`. -/
def emit (emitted : List String) (state : Dict String (List String) × List String)
    (pair : String × String) : Dict String (List String) × List String :=
  let outs := (containersOf state.1 pair.2).filter (· ≠ pair.1)
  (state.1.set pair.2 outs,
    if outs = [] ∧ pair.2 ∉ emitted ∧ pair.2 ∉ state.2 then state.2 ++ [pair.2] else state.2)

/-- Every name of a wave with every name that it strictly contains. -/
def ContainmentGraph.losses (wave : List String) :
    List (String × String) :=
  wave.flatMap fun node => (graph.incoming node).map fun predecessor => (node, predecessor)

/-- The waves that are left. -/
def reapWaves (graph : ContainmentGraph) :
    Nat → Dict String (List String) → List String → List String → List String
  | 0, _, order, _ => order
  | fuel + 1, remaining, order, ready =>
    if ready = [] then order
    else
      let next := (graph.losses ready).foldl (emit (order ++ ready)) (remaining, [])
      reapWaves graph fuel next.1 (order ++ ready) (next.2.insertionSort (· ≤ ·))

/-- `reap_order` -/
def reapOrder (order : SetOrder) (containedBy : Dict String (List String)) :
    Except AncestryError (List String) :=
  match analyze order containedBy with
  | .error error => .error error
  | .ok graph =>
    let out := reapWaves graph graph.nodes.length graph.strictContainers [] graph.maximal
    if out.length ≠ graph.nodes.length then
      .error (.cycle ((graph.nodes.filter (· ∉ out)).insertionSort (· ≤ ·)))
    else .ok out

end Workbay.Ancestry
