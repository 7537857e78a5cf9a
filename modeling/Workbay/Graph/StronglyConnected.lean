import Mathlib.Data.Nat.Basic
import Mathlib.Order.Basic
import Workbay.Graph.Visit

/-!
# Strongly connected components

Tarjan's algorithm over an adjacency function, in its recursive form: a vertex is numbered and
stacked when it is entered, its low link is lowered while its successors are scanned, and a vertex
whose low link is its own number takes its component off the stack. The recursion is on fuel.
-/

namespace Workbay.Graph

variable {α : Type}

/-- An edge between two vertices of the graph. -/
def Edge (vertices : List α) (successors : α → List α) (x y : α) : Prop :=
  y ∈ successors x ∧ y ∈ vertices

/-- A path, the empty one included. -/
def Reach (vertices : List α) (successors : α → List α) : α → α → Prop :=
  Relation.ReflTransGen (Edge vertices successors)

/-- Two vertices that reach each other. -/
def Connected (vertices : List α) (successors : α → List α) (x y : α) : Prop :=
  Reach vertices successors x y ∧ Reach vertices successors y x

/-- What the search has found so far. -/
structure Search (α : Type) where
  index : Nat := 0
  /-- The last vertex first. -/
  stack : List α := []
  onStack : List α := []
  indices : Dict α Nat := []
  lowlink : Dict α Nat := []
  components : List (List α) := []
deriving DecidableEq

variable [DecidableEq α]

namespace Search

variable (st : Search α)

/-- Whether a vertex has been entered. -/
def Visited (v : α) : Prop := (st.indices.get? v).isSome

instance (st : Search α) (v : α) : Decidable (st.Visited v) :=
  inferInstanceAs (Decidable ((st.indices.get? v).isSome = true))

/-- The number of a vertex. -/
def num (v : α) : Nat := st.indices.getD v 0

/-- The low link of a vertex. -/
def low (v : α) : Nat := st.lowlink.getD v 0

/-- A vertex is numbered and stacked. -/
def enter (v : α) : Search α :=
  { st with
    indices := st.indices.set v st.index
    lowlink := st.lowlink.set v st.index
    index := st.index + 1
    stack := v :: st.stack
    onStack := v :: st.onStack }

/-- The low link of a vertex becomes the smaller one. -/
def lower (v : α) (n : Nat) : Search α :=
  { st with lowlink := st.lowlink.set v (min (st.low v) n) }

/-- The members above a vertex and itself, and what is left of the stack. -/
def popTo (v : α) : List α → Option (List α × List α)
  | [] => none
  | member :: stack =>
    if member = v then some ([member], stack)
    else (popTo v stack).map fun (component, rest) => (member :: component, rest)

/-- A vertex that is the first of its component takes it off the stack. -/
def close (v : α) : Option (Search α) :=
  if st.low v = st.num v then
    (popTo v st.stack).map fun (component, rest) =>
      { st with
        stack := rest
        onStack := st.onStack.filter fun member => member ∉ component
        components := st.components ++ [component] }
  else some st

end Search

/-- One successor of the vertex `v`; `connect` enters a vertex. -/
def scan (vertices : List α) (connect : α → Search α → Option (Search α)) (v : α)
    (st : Search α) (next : α) : Option (Search α) :=
  if next ∉ vertices then some st
  else if ¬ st.Visited next then (connect next st).map fun st => st.lower v (st.low next)
  else if next ∈ st.onStack then some (st.lower v (st.num next))
  else some st

/-- Enter a vertex, scan its successors and close it. -/
def strongConnect (vertices : List α) (successors : α → List α) :
    Nat → α → Search α → Option (Search α)
  | 0, _, _ => none
  | fuel + 1, v, st => do
    let st ← (successors v).foldlM (scan vertices (strongConnect vertices successors fuel) v)
      (st.enter v)
    st.close v

/-- The components of the whole graph; its vertices are tried in the order of the list. -/
def stronglyConnected (vertices : List α) (successors : α → List α) : Option (List (List α)) := do
  let st ← vertices.foldlM (fun st v =>
    if st.Visited v then some st
    else strongConnect vertices successors vertices.length v st) {}
  return st.components

end Workbay.Graph

/-!
## Components by two searches

A search that marks vertices when they are put on the worklist, and the algorithm that finds strongly
connected components with a depth-first search on an explicit stack, which gives the order in which
vertices are left, and a search against the edges from every vertex of that order, the last one first.
-/

namespace Workbay.Graph

variable {α : Type} [DecidableEq α]

/-! ## A search with a worklist -/

/-- The vertices of a list that are not seen yet, each of them once. -/
def fresh (seen : List α) : List α → List α
  | [] => []
  | x :: xs => if x ∈ seen then fresh seen xs else x :: fresh (seen ++ [x]) xs

/-- The vertices seen, and those taken from the worklist in their order. What a vertex leads to is
seen when it is put on the worklist, in the way that `push` says. -/
def flood (push : List α → List α → List α) (next : α → List α) :
    Nat → List α → List α → List α → List α × List α
  | 0, seen, _, taken => (seen, taken)
  | _ + 1, seen, [], taken => (seen, taken)
  | fuel + 1, seen, x :: work, taken =>
    flood push next fuel (seen ++ fresh seen (next x)) (push (fresh seen (next x)) work)
      (taken ++ [x])

/-- The worklist is a stack; its top stands first. -/
def onTop (new work : List α) : List α := new.reverse ++ work

/-- The worklist is a queue. -/
def atEnd (new work : List α) : List α := work ++ new

/-! ## The order in which vertices are left -/

/-- The vertices visited and those left, in order. An entry of the stack is a vertex to visit, or one to
leave; successors are pushed in the order of the list. -/
def leaveFrom (next : α → List α) :
    Nat → List α → List α → List (α × Bool) → List α × List α
  | 0, visited, finish, _ => (visited, finish)
  | _ + 1, visited, finish, [] => (visited, finish)
  | fuel + 1, visited, finish, (x, true) :: stack => leaveFrom next fuel visited (finish ++ [x]) stack
  | fuel + 1, visited, finish, (x, false) :: stack =>
    if x ∈ visited then leaveFrom next fuel visited finish stack
    else leaveFrom next fuel (visited ++ [x]) finish
      ((((next x).filter fun y => y ∉ visited ++ [x]).map fun y => (y, false)).reverse ++
        (x, true) :: stack)

/-- The order in which all vertices are left. -/
def leaveOrder (next : α → List α) (vertices : List α) : List α :=
  (vertices.foldl (fun state start =>
    leaveFrom next (1 + vertices.length + degreeSum next vertices) state.1 state.2
      [(start, false)]) ([], [])).2

/-! ## Components -/

/-- The component of a start that has none yet. -/
def collect (prev : α → List α) (fuel : Nat) (state : List α × List (List α)) (start : α) :
    List α × List (List α) :=
  if start ∈ state.1 then state
  else
    ((flood onTop prev fuel (state.1 ++ [start]) [start] []).1,
      state.2 ++ [(flood onTop prev fuel (state.1 ++ [start]) [start] []).2])

/-- The components of a graph, given the edges in both directions. -/
def kosaraju (next prev : α → List α) (vertices : List α) : List (List α) :=
  ((leaveOrder next vertices).reverse.foldl (collect prev (1 + vertices.length)) ([], [])).2

end Workbay.Graph
