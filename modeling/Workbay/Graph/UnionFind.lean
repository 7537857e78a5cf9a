import Mathlib.Order.Lattice
import Mathlib.Order.Defs.LinearOrder
import Workbay.Data.Dict

/-!
# Union-find on an ordered forest

A map from every member to its parent. A union attaches the larger root under the smaller one, so
that a parent is never larger than its child, and the root of a class is its least member. A find
halves the path that it takes.
-/

namespace Workbay.Graph

variable {α : Type} [LinearOrder α]

/-- Every member is its own parent. -/
def singletons (members : List α) : Dict α α := members.map fun x => (x, x)

/-- The root of a member, with the map after the halving of the path. -/
def findFrom : Nat → Dict α α → α → Dict α α × α
  | 0, parent, x => (parent, x)
  | fuel + 1, parent, x =>
    let up := parent.getD x x
    if up = x then (parent, x)
    else
      let above := parent.getD up up
      findFrom fuel (parent.set x above) above

/-- Find the root of a member; a path is not longer than the map. -/
def find (parent : Dict α α) (x : α) : Dict α α × α := findFrom parent.length parent x

/-- Join the classes of two members. -/
def union (parent : Dict α α) (a b : α) : Dict α α :=
  let (parent, rootA) := find parent a
  let (parent, rootB) := find parent b
  if rootA = rootB then parent
  else if rootA < rootB then parent.set rootB rootA
  else parent.set rootA rootB

/-- Join the ends of every pair, in order. -/
def unionAll (parent : Dict α α) (pairs : List (α × α)) : Dict α α :=
  pairs.foldl (fun parent pair => union parent pair.1 pair.2) parent

/-- The members with their roots, found one after the other. -/
def rootsOf : Dict α α → List α → Dict α α
  | _, [] => []
  | parent, x :: xs => (x, (find parent x).2) :: rootsOf (find parent x).1 xs

end Workbay.Graph
