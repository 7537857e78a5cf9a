import Mathlib.Data.String.Basic
import Workbay.Graph.StronglyConnected
import Workbay.Graph.TopologicalOrder
import Workbay.Retention.Contract

/-!
# Dependencies between resources

Which resources may be retired, and in which order. Edges that are not verifiably released hold their
providers, and hold what these provide in turn; a cycle of them is held whole. What is left is ordered
along the released edges, consumers first.
-/

namespace Workbay.Retention

open Workbay.Graph

/-- `Diagnostic` -/
structure Diagnostic where
  reason : String
  identity : String
deriving DecidableEq

/-- The arguments of `analyze_dependencies`. -/
structure Inventory where
  registrations : List Registration
  owner : Owner
  edges : List DependencyEdge
  inventoryComplete : Proof
  clearances : Dict ResourceIdentity Proof
  now : Timestamp

/-- `DependencyAnalysis` -/
structure DependencyAnalysis where
  snapshots : Dict ResourceIdentity DependencySnapshot
  eligibleOrder : List ResourceIdentity
  components : List (List ResourceIdentity)
  holds : List Diagnostic
  evidence : EvidenceRef
deriving DecidableEq

/-- The digests: `canonical_digest` of a resource, and the reference that `_evidence` gives to the
arguments. -/
structure Digests where
  canonicalDigest : ResourceIdentity → String
  analysisEvidence : Inventory → EvidenceRef

/-- The first of the times with the least measure. -/
def firstLeast (measure : Timestamp → Int) : List Timestamp → Option Timestamp
  | [] => none
  | t :: ts => some (ts.foldl (fun best u => if measure u < measure best then u else best) t)

/-- `_combined` -/
def combined (proofs : List Proof) (evidence : EvidenceRef) (now : Timestamp) (held : Bool) : Proof :=
  if held || proofs.isEmpty || proofs.any fun p => (proofProblem p now.instant).isSome then
    { state := .unknown, evidence := [evidence] }
  else
    { state := .verified
      evidence := fresh [] (evidence :: proofs.flatMap (·.evidence))
      observedAt := firstLeast (fun t => -t.instant) (proofs.filterMap (·.observedAt))
      validUntil := firstLeast (·.instant) (proofs.filterMap (·.validUntil)) }

/-- `sorted` by a key, and in reverse -/
def sortedBy (key : ResourceIdentity → String) (xs : List ResourceIdentity) : List ResourceIdentity :=
  xs.insertionSort fun x y => key x ≤ key y

def sortedDownBy (key : ResourceIdentity → String) (xs : List ResourceIdentity) :
    List ResourceIdentity :=
  xs.insertionSort fun x y => key y ≤ key x

namespace Inventory

variable (q : Inventory)

def resources : List ResourceIdentity := q.registrations.map (·.resource)

/-- The resources and the ends of the edges. -/
def nodes : List ResourceIdentity :=
  fresh [] (q.resources ++ q.edges.map (·.consumer) ++ q.edges.map (·.provider))

variable (r : ResourceIdentity)

def clearance : Proof := q.clearances.getD r {}

/-- An edge counts unless it is released, with a good proof of that. -/
def isOpen (e : DependencyEdge) : Bool :=
  e.state ≠ .released || (proofProblem e.proof q.now.instant).isSome

/-- What a node needs. -/
def graph : List ResourceIdentity :=
  fresh [] ((q.edges.filter fun e => q.isOpen e && e.consumer = r).map (·.provider))

/-- What needs a node. -/
def reverse : List ResourceIdentity :=
  fresh [] ((q.edges.filter fun e => q.isOpen e && e.provider = r).map (·.consumer))

/-- The reasons of a node itself, and those of the edges to it. -/
def ownReasons : List String :=
  (if r ∈ q.resources then [] else ["dependency_registration_unknown"]) ++
    (if r.owner = q.owner then [] else ["foreign_owner"]) ++
    (proofProblem (q.clearance r) q.now.instant).toList ++
    ((proofProblem q.inventoryComplete q.now.instant).map ("inventory_" ++ ·)).toList ++
    (q.edges.filter fun e => q.isOpen e && e.provider = r).map fun e =>
      if (proofProblem e.proof q.now.instant).isSome || e.state = .unknown then "dependency_unknown"
      else "dependency_required"

/-- The components, as the search finds their members. -/
def members (key : ResourceIdentity → String) : List (List ResourceIdentity) :=
  kosaraju (fun r => sortedDownBy key (q.graph r)) (fun r => sortedBy key (q.reverse r))
    (sortedBy key q.nodes)

/-- A component is held when it is a cycle: it has several members, or its first one needs itself. -/
def sccHeld (members : List ResourceIdentity) : Bool :=
  1 < members.length || members.head?.any fun start => start ∈ q.graph start

variable (key : ResourceIdentity → String)

/-- The reasons before they are passed on to providers. -/
def baseReasons (r : ResourceIdentity) : List String :=
  q.ownReasons r ++
    if (q.members key).any fun c => q.sccHeld c && c.contains r then ["scc_held"] else []

/-- The nodes that provide for a held one, directly or not. -/
def consumerHeld : List ResourceIdentity :=
  (flood atEnd q.graph (2 * q.nodes.length) [] (q.nodes.filter fun r => q.baseReasons key r ≠ []) []).1

/-- `reasons` -/
def reasons (r : ResourceIdentity) : List String :=
  fresh [] (q.baseReasons key r ++ if r ∈ q.consumerHeld key then ["consumer_held"] else [])

/-- The nodes that need a resource, directly or not, and the resource. -/
def ancestors (r : ResourceIdentity) : List ResourceIdentity :=
  (flood onTop q.reverse (1 + q.nodes.length) [r] [r] []).1

/-- The edges that a snapshot has: those to the ancestors. -/
def relevantEdges : List DependencyEdge :=
  q.edges.filter fun e => e.provider ∈ q.ancestors r

/-- The proofs that a snapshot combines. -/
def combinedProofs : List Proof :=
  q.inventoryComplete :: q.clearance r :: (q.relevantEdges r).map (·.proof)

def snapshot (digests : Digests) (component : List ResourceIdentity) (r : ResourceIdentity) :
    DependencySnapshot :=
  { edges := q.relevantEdges r
    inventoryComplete := q.inventoryComplete
    noLiveConsumers := combined (q.combinedProofs r) (digests.analysisEvidence q) q.now
      (q.reasons digests.canonicalDigest r ≠ [])
    sccClear := combined (q.combinedProofs r) (digests.analysisEvidence q) q.now
      (q.reasons digests.canonicalDigest r ≠ [])
    componentMembers := component }

/-- The resources without reasons. -/
def eligible : List ResourceIdentity :=
  q.resources.filter fun r => q.reasons key r = []

/-- One resource comes after another: an edge says so, released or not. -/
def waitsFor (r consumer : ResourceIdentity) : Bool :=
  q.edges.any fun e => e.provider = r && e.consumer = consumer && consumer ≠ r

end Inventory

/-- `analyze_dependencies` -/
def analyzeDependencies (digests : Digests) (q : Inventory) : Except String DependencyAnalysis :=
  if q.resources.Nodup then
    .ok {
      snapshots := (((q.members digests.canonicalDigest).map
        (sortedBy digests.canonicalDigest)).flatMap fun component =>
          (component.filter (· ∈ q.resources)).map fun r => (r, q.snapshot digests component r))
      eligibleOrder := peel digests.canonicalDigest q.waitsFor (q.eligible digests.canonicalDigest)
      components := (q.members digests.canonicalDigest).map (sortedBy digests.canonicalDigest)
      holds := (sortedBy digests.canonicalDigest q.nodes).flatMap fun r =>
        ((q.reasons digests.canonicalDigest r).insertionSort (· ≤ ·)).map (⟨·, r.identity⟩)
      evidence := digests.analysisEvidence q }
  else .error "duplicate resource"

end Workbay.Retention
