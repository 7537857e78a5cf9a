import Mathlib.Data.List.Basic
import Mathlib.Order.Lattice

/-!
# Listings by key

A listing in key order is read page by page. Each page continues behind the last key of the page
before it, in the collection as it is by then. What was inserted or removed between the pages may be
listed or not; what is in the collection at every page is listed exactly once.
-/

namespace Workbay.Keyset

open List

variable {α κ : Type} [LinearOrder κ]

/-- Elements in the order of their keys. -/
def Ordered (key : α → κ) (xs : List α) : Prop := xs.Pairwise fun x y => key x < key y

/-- The elements behind a key. -/
def behind (key : α → κ) (after : κ) (xs : List α) : List α := xs.filter fun x => after < key x

/-- The page behind a key. -/
def page (key : α → κ) (after : κ) (limit : Nat) (xs : List α) : List α :=
  (behind key after xs).take limit

/-- Where the next page starts: behind the last element, if others follow it. -/
def next (key : α → κ) (after : κ) (limit : Nat) (xs : List α) : Option κ :=
  if limit < (behind key after xs).length then (page key after limit xs).getLast?.map key else none

/-- The pages of a listing with the limit of each, in the collection as it is at each of them. They
end with the page behind which nothing follows. -/
def pages (key : α → κ) : κ → List (List α × Nat) → List (List α)
  | _, [] => []
  | after, (xs, limit) :: reads =>
    page key after limit xs :: match next key after limit xs with
      | some last => pages key last reads
      | none => []

/-- The listing has come to its end. -/
def complete (key : α → κ) : κ → List (List α × Nat) → Bool
  | _, [] => false
  | after, (xs, limit) :: reads =>
    match next key after limit xs with
      | some last => complete key last reads
      | none => true

variable {key : α → κ} {after : κ} {limit : Nat} {xs : List α}

attribute [grind] Ordered behind page next pages complete

variable {x : α} {last : κ}

theorem mem_behind : x ∈ behind key after xs ↔ x ∈ xs ∧ after < key x := by
  simp [behind]

theorem Ordered.page (h : Ordered key xs) : Ordered key (page key after limit xs) :=
  (h.filter _).sublist (take_sublist _ _)

variable {reads : List (List α × Nat)}

end Workbay.Keyset
