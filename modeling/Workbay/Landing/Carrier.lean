import Workbay.Git.Repo

/-!
# Carriers

Which commit of the first-parent chain of the main branch brought a commit in.
-/

namespace Workbay.Landing

open Git

/-- How a commit got to the main branch. -/
inductive Lineage where
  | firstParent
  | mergeCarried
deriving DecidableEq

/-- Why no answer is given. -/
inductive CarrierError where
  | commitMissing
  | mainMissing
  | noCarrier
  | noFirstParent
deriving DecidableEq

/-- `CarrierResult` -/
structure CarrierResult where
  commit : String
  mainRef : String
  mainTip : Option String := none
  contained : Bool := false
  carrier : Option String := none
  lineage : Option Lineage := none
  error : Option CarrierError := none
deriving DecidableEq

variable {π : Type}

/-- `rev-list --ancestry-path <c>..<m>` -/
def revListAncestryPath (g : Dag String π) (c m : String) : List String :=
  (ids g.nodes).filter fun a =>
    g.isAncestorOrEqual a m && !g.isAncestorOrEqual a c && g.isAncestorOrEqual c a

/-- `rev-parse <commit>^1` -/
def firstParent? (g : Dag String π) (commit : String) : Option String :=
  (g.find? commit).bind fun node => node.parents.head?

/-- `_find_carrier`, with `rev-parse --verify <revision>^{commit}` as a function of the revision -/
def findCarrier (g : Dag String π) (resolve : String → Option String) (commit mainRef : String) :
    CarrierResult :=
  match resolve commit with
  | none => { commit, mainRef, error := some .commitMissing }
  | some c =>
    match resolve mainRef with
    | none => { commit := c, mainRef, error := some .mainMissing }
    | some m =>
      let result : CarrierResult := { commit := c, mainRef, mainTip := some m }
      if c = m then
        { result with contained := true, carrier := some c, lineage := some .firstParent }
      else if g.isAncestorOrEqual c m = false then result
      else
        let path := revListAncestryPath g c m
        match ((g.revListFirstParent (some c) m).filter fun a => a ∈ path).getLast? with
        | none => { result with error := some .noCarrier }
        | some oldest =>
          match firstParent? g oldest with
          | none => { result with error := some .noFirstParent }
          | some parent =>
            if parent = c then
              { result with contained := true, carrier := some c, lineage := some .firstParent }
            else
              { result with
                contained := true, carrier := some oldest, lineage := some .mergeCarried }

end Workbay.Landing
