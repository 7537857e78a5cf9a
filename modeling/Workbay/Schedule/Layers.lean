import Workbay.Manifest.Validate
import Workbay.Schedule.ReadySet

/-!
# The layers of a manifest

The graph that a manifest declares, as the scheduler reads it.
-/

namespace Workbay.Schedule

open Manifest

/-- `_lane_ids` -/
def laneIds (data : Fields) : List String :=
  (((members data "lanes").map Prod.fst).filter (· ≠ "")).insertionSort (· ≤ ·)

/-- `_depends_on_map`: blank prerequisites are dropped; what is no list is `none`. -/
def dependsOnMap (data : Fields) : Dict String (Option (List String)) :=
  ((members data "depends_on").filter fun entry => entry.1 ≠ "").map fun (lane, prereqs) =>
    (lane, prereqs.arr?.map fun values =>
      (values.filterMap Json.str?).filter fun prereq => Text.strip prereq ≠ "")

/-- The prerequisites that are given as lists, the only ones that `_declared_depends_on` reads. -/
def listedDependsOn (data : Fields) : DependsOn :=
  (dependsOnMap data).filterMap fun (lane, prereqs) => prereqs.map fun prereqs => (lane, prereqs)

/-- `compute_layers` of a manifest. -/
def manifestLayers (data : Fields) : Except (List String) (List (List String)) :=
  computeLayers (laneIds data) (listedDependsOn data)

end Workbay.Schedule
