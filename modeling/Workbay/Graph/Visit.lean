import Mathlib.Algebra.GroupWithZero.Nat
import Mathlib.Logic.Relation
import Mathlib.Algebra.BigOperators.Group.List.Basic
import Workbay.Data.Dict

/-!
# Visiting a graph

The search that takes one vertex after the other off a stack, and the search with three colours
that stops at the first edge back to the path it is on. A graph is a function from a vertex to its
successors; `domain` lists at least the vertices that have any.
-/

namespace Workbay.Graph

variable {α : Type}

/-- One vertex is a successor of another. -/
def Step (next : α → List α) (x y : α) : Prop := y ∈ next x

/-- No path leads from a vertex back to itself. -/
def Acyclic (next : α → List α) : Prop := ∀ x, ¬ Relation.TransGen (Step next) x x

variable [DecidableEq α]

/-! ## The search with a stack -/

/-- The vertices visited, in their order; the top of the stack stands first. -/
def visitFrom (next : α → List α) : Nat → List α → List α → List α
  | 0, visited, _ => visited
  | _ + 1, visited, [] => visited
  | fuel + 1, visited, x :: stack =>
    if x ∈ visited then visitFrom next fuel visited stack
    else visitFrom next fuel (visited ++ [x]) ((next x).reverse ++ stack)

/-- How many vertices are pushed while the vertices of `domain` are expanded. -/
def degreeSum (next : α → List α) (domain : List α) : Nat :=
  (domain.map fun u => (next u).length).sum

/-- Everything that is reached from `starts`, in the order of the first visit. -/
def visit (domain : List α) (next : α → List α) (starts : List α) : List α :=
  visitFrom next (starts.length + degreeSum next domain) [] starts.reverse

/-! ## The search with three colours -/

/-- The colour of a vertex: not entered, on the path, finished. -/
inductive Colour where
  | white
  | grey
  | black
deriving DecidableEq

/-- The colour of a vertex. -/
def colourOf (colours : Dict α Colour) (x : α) : Colour := colours.getD x .white

/-- The frames of a path, with the successors that are left; an edge back to the path is an
error. -/
def paint (next : α → List α) :
    Nat → Dict α Colour → List (α × List α) → Except (α × α) (Dict α Colour)
  | 0, colours, _ => .ok colours
  | _ + 1, colours, [] => .ok colours
  | fuel + 1, colours, (node, []) :: frames =>
    paint next fuel (colours.set node .black) frames
  | fuel + 1, colours, (node, y :: rest) :: frames =>
    match colourOf colours y with
    | .grey => .error (node, y)
    | .white => paint next fuel (colours.set y .grey) ((y, next y) :: (node, rest) :: frames)
    | .black => paint next fuel colours ((node, rest) :: frames)

/-- Paint from every start that is still white. -/
def paintAll (next : α → List α) (fuel : Nat) :
    Dict α Colour → List α → Except (α × α) (Dict α Colour)
  | colours, [] => .ok colours
  | colours, start :: starts =>
    if colourOf colours start = .white then
      match paint next fuel (colours.set start .grey) [(start, next start)] with
      | .error edge => .error edge
      | .ok colours => paintAll next fuel colours starts
    else paintAll next fuel colours starts

/-- The first edge that closes a cycle, if there is one below the starts. -/
def backEdge? (domain : List α) (next : α → List α) (starts : List α) : Option (α × α) :=
  match paintAll next (domain.length + degreeSum next domain) [] starts with
  | .error edge => some edge
  | .ok _ => none

end Workbay.Graph
