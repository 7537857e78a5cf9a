import Workbay.Graph.Bypass
import Workbay.Manifest.Validate

/-!
# Contraction of terminal lanes

`contract_terminal_lanes` takes lanes that have ended out of a manifest and splices the paths that
led through them.
-/

namespace Workbay.Manifest

open Workbay.Graph

/-! ## The graphs of a manifest -/

/-- An edge, from a lane to a target. -/
abbrev Edge := String × String

variable (adjacency : Dict String (List String))

/-- A map of lists as the members of an object. -/
def writeAdjacency : Fields :=
  adjacency.map fun (source, targets) => (source, .arr (targets.map .str))

/-- The edges of a map of lists. -/
def edges (adjacency : Dict String (List String)) : List Edge :=
  adjacency.flatMap fun (source, targets) => targets.map fun target => (source, target)

/-- The order in which edges are sorted. -/
def edgeLe (a b : Edge) : Bool := a.1 < b.1 || (a.1 = b.1 && a.2 ≤ b.2)

/-- `sorted` of a set of edges. -/
def sortedEdges (edges : List Edge) : List Edge := edges.dedup.insertionSort fun a b => edgeLe a b

/-! ## `_contract_adjacency` -/

/-- The targets that a source keeps, and those among them that are new. -/
structure Kept where
  targets : List String := []
  added : List String := []

/-- Keep a lane that was found behind removed ones. -/
def Kept.find (original : List Edge) (source : String) (kept : Kept) (node : String) : Kept :=
  if node ∈ kept.targets then kept
  else
    { targets := kept.targets ++ [node]
      added := if (source, node) ∈ original then kept.added else kept.added ++ [node] }

/-- The lanes behind a removed target: the search expands removed lanes only. -/
def behind (removed : List String) (source target : String) :
    List String :=
  (visit (adjacency.map Prod.fst)
      (fun node => if node ∈ removed then successors adjacency node else []) [target]).filter
    fun node => node ∉ removed ∧ node ≠ source

/-- One target of a source. -/
def Kept.target (adjacency : Dict String (List String)) (removed : List String) (source : String)
    (kept : Kept) (target : String) : Kept :=
  if target ∉ removed then
    if target ≠ source ∧ target ∉ kept.targets then
      { kept with targets := kept.targets ++ [target] }
    else kept
  else (behind adjacency removed source target).foldl (Kept.find (edges adjacency) source) kept

/-- What a source keeps of its targets. -/
def keptOf (removed : List String) (source : String)
    (targets : List String) : Kept :=
  targets.foldl (Kept.target adjacency removed source) {}

/-- What is left of a map of lists, with the edges that went and the edges that came. -/
structure ContractedAdjacency where
  contracted : Dict String (List String)
  dropped : List Edge
  added : List Edge

/-- `_contract_adjacency` -/
def contractAdjacency (removed : List String) :
    ContractedAdjacency :=
  let survivors := adjacency.filter fun entry => entry.1 ∉ removed
  { contracted := survivors.map fun (source, targets) =>
      (source, (keptOf adjacency removed source targets).targets)
    dropped := sortedEdges ((edges adjacency).filter fun edge =>
      edge.1 ∈ removed ∨ edge.2 ∈ removed)
    added := sortedEdges (survivors.flatMap fun (source, targets) =>
      (keptOf adjacency removed source targets).added.map fun target => (source, target)) }

/-! ## `contract_terminal_lanes` -/

/-- Why a lane is not taken out. -/
inductive EvictionReason where
  | unknownLane
  | statusNotEvictable
deriving DecidableEq

/-- How a contraction fails. -/
inductive ContractionError where
  /-- `LaneEvictionRefused` -/
  | refused (refusals : List (String × EvictionReason))
  /-- `merge_order`, `depends_on` or `downstream` has entries that are no strings. The types of the
  source exclude that; what it does then is not modelled. -/
  | notTyped
deriving DecidableEq

/-- The edges of one kind in the three graphs. -/
structure EdgeRecord where
  dependsOn : List Edge := []
  downstream : List Edge := []
  conflictEdges : List Json := []
deriving DecidableEq

/-- The entries that were taken out besides edges. -/
structure EntryRecord where
  mergeOrder : List Json := []
  colourClasses : List String := []
  headingToLane : Fields := []
  planRoutingHints : List Json := []
  routing : List Json := []
deriving DecidableEq

/-- `LaneEvictionContraction` -/
structure LaneEvictionContraction where
  removedIds : List String
  edgesDropped : EdgeRecord
  edgesAdded : EdgeRecord
  entriesDropped : EntryRecord
deriving DecidableEq

variable (removed : List String)

/-- A value is the name of a removed lane. -/
def isRemoved (value : Option Json) : Bool :=
  (value.bind Json.str?).any (· ∈ removed)

/-- A conflict edge has a removed end. -/
def touchesRemoved (pair : Json) : Bool :=
  (pair.arr?.getD []).any fun endpoint => isRemoved removed (some endpoint)

/-- A routing entry leads to a removed lane. -/
def routesToRemoved (route : Json) : Bool :=
  isRemoved removed (member? route "lane")

/-- Whether a value of `terminal` allows the lane to be taken out. -/
def isEvictable (lane : Json) : Bool :=
  match (member? lane "terminal").bind fun terminal => member? terminal "status" with
  | some (.str status) => evictableTerminalStatuses.contains status
  | _ => false

/-- Why one requested lane is refused, if it is. -/
def evictionRefusal (lanes : Fields) (laneId : String) : Option (String × EvictionReason) :=
  match lanes.get? laneId with
  | none | some .null => some (laneId, .unknownLane)
  | some lane => if isEvictable lane then none else some (laneId, .statusNotEvictable)

/-- The entries of the three ordering fields are strings. -/
def isTyped (data : Fields) : Bool :=
  (elements data "merge_order").all (fun value => value.str?.isSome) &&
    (members data "depends_on").all (fun entry => isStrArray entry.2) &&
    (members data "downstream").all fun entry => isStrArray entry.2

/-- What becomes of the value of a field. Every field is contracted by itself. -/
def contractValue (key : String) (value : Json) : Json :=
  match value with
  | .obj entries =>
    if key = "lanes" ∨ key = "colour_classes" then
      .obj (entries.filter fun entry => entry.1 ∉ removed)
    else if key = "depends_on" ∨ key = "downstream" then
      .obj (writeAdjacency (contractAdjacency (readAdjacency entries) removed).contracted)
    else if key = "heading_to_lane" then
      .obj (entries.filter fun entry => !isRemoved removed (some entry.2))
    else value
  | .arr entries =>
    if key = "merge_order" then .arr (entries.filter fun entry => !isRemoved removed (some entry))
    else if key = "conflict_edges" then
      .arr (entries.filter fun entry => !touchesRemoved removed entry)
    else if key = "plan_routing_hints" ∨ key = "routing" then
      .arr (entries.filter fun entry => !routesToRemoved removed entry)
    else value
  | _ => value

/-- The manifest without the removed lanes. -/
def contractFields (data : Fields) : Fields :=
  data.map fun (key, value) => (key, contractValue removed key value)

/-- The record of a contraction. No conflict edge is ever added. -/
def contractionRecord (data : Fields) : LaneEvictionContraction :=
  let dependsOn := contractAdjacency (adjacencyOf data "depends_on") removed
  let downstream := contractAdjacency (adjacencyOf data "downstream") removed
  { removedIds := removed
    edgesDropped :=
      { dependsOn := dependsOn.dropped
        downstream := downstream.dropped
        conflictEdges := (elements data "conflict_edges").filter (touchesRemoved removed) }
    edgesAdded := { dependsOn := dependsOn.added, downstream := downstream.added }
    entriesDropped :=
      { mergeOrder := (elements data "merge_order").filter fun entry =>
          isRemoved removed (some entry)
        colourClasses := removed.filter fun laneId =>
          laneId ∈ (members data "colour_classes").map Prod.fst
        headingToLane := (members data "heading_to_lane").filter fun entry =>
          isRemoved removed (some entry.2)
        planRoutingHints := (elements data "plan_routing_hints").filter (routesToRemoved removed)
        routing := (elements data "routing").filter (routesToRemoved removed) } }

/-- `contract_terminal_lanes` -/
def contractTerminalLanes (manifest : Fields) (laneIds : List String) :
    Except ContractionError (Fields × LaneEvictionContraction) :=
  let requested := laneIds.dedup.insertionSort (· ≤ ·)
  let refusals := requested.filterMap (evictionRefusal (members manifest "lanes"))
  if refusals ≠ [] then .error (.refused refusals)
  else if isTyped manifest then
    .ok (contractFields requested manifest, contractionRecord requested manifest)
  else .error .notTyped

end Workbay.Manifest
