import Workbay.Compiler.Proofs.AllocationProofs
import Workbay.Compiler.Proofs.CollisionProofs

/-!
# Proofs: junior lanes and their reviewers

The compiler recognises the twin of a junior lane by the beginning of its name, which the twin of a
lane with a longer name may share. A junior lane has a twin of its own just when there was a reviewer
for it at its turn.
-/

namespace Workbay.Compiler

open Workbay.Manifest List

/-- The order in which the lanes get their reviewers. -/
def allocationOrder (graph : WorkGraph) : List String :=
  let rank := fun laneId => severityRank (graph.severities.get? laneId)
  graph.laneIds.insertionSort fun a b => rank a < rank b ∨ (rank a = rank b ∧ a ≤ b)

/-- The bounds on the local reviewers of a compilation. -/
def capsOf (registry : Registry) (options : Options) : Caps where
  perBackend := options.perBackendLocalCap
  total := maxLocalReviewersTotal registry

section

variable {host : Host} {registry : Registry} {options : Options} {items : List Fields}
  {result : CompileResult} {graph : WorkGraph} {state : Emission}

theorem perm_allocationOrder (graph : WorkGraph) :
    (allocationOrder graph).Perm graph.laneIds := perm_insertionSort _ _

theorem Merged.nodup_laneIds {byId : Items} (h : Merged byId graph) : graph.laneIds.Nodup := by
  unfold WorkGraph.laneIds
  rw [(perm_insertionSort _ _).nodup_iff, ← h.laneKeys]
  exact h.laneNodup

theorem addTwins_seen {taskRef : String} {byId : Items} (hmerged : Merged byId graph)
    (hwork : ∀ laneId ∈ graph.laneIds, isVerifyTwin laneId = false)
    (htwins : options.emitVerifyTwins = true)
    (h : addTwins registry options taskRef graph = .ok state) :
    (∀ laneId lane, graph.lanes.get? laneId = some lane → isJunior lane = true →
      ∃ spec, registry.get? (preferredBackend lane) = some spec) ∧
    ∃ seen held, Emitting registry graph.laneIds graph.lanes graph.edges.dependsOn seen ∧
      Allocated registry (capsOf registry options) graph.lanes (allocationOrder graph) seen ∧
      Extends seen held ∧ (∀ blocker ∈ held.blockers, blocker ∈ seen.blockers ∨
        ((∃ laneId, blocker = noReviewerHold laneId) ∧
          ∃ row ∈ held.provisioning, row.laneId = sharedGateId)) ∧
      (held.lanes.map Prod.fst).Nodup ∧ (held.dependsOn.map Prod.fst).Nodup ∧
      state.lanes = held.lanes ∧ state.dependsOn = reroute graph.laneIds held ∧
      state.provisioning.Perm held.provisioning ∧ state.blockers.Perm held.blockers := by
  unfold addTwins at h
  rw [if_pos htwins] at h
  obtain ⟨hjunior, h⟩ := check_then_eq_ok.mp h
  obtain ⟨emission, hemission, h⟩ := bind_eq_ok.mp h
  obtain ⟨-, h⟩ := check_then_eq_ok.mp h
  obtain rfl := Except.ok.inj h
  refine ⟨fun laneId lane hlane hjun => ?_, ?_⟩
  · have hcheck := checkAll_eq_ok.mp hjunior _ (Dict.mem_of_get? hlane)
    unfold checkJunior at hcheck
    rw [require_eq_ok] at hcheck
    obtain ⟨hname, hcandidates⟩ := hcheck.resolve_left (by rw [hjun]; decide)
    rw [← Option.ne_none_iff_exists']
    exact fun hnone => hcandidates (selectReviewBackends_of_unknown hname hnone)
  unfold emitVerifyTwins at hemission
  simp only at hemission
  obtain ⟨seen, hseen, hemission⟩ := bind_eq_ok.mp hemission
  obtain ⟨held, hheld, hemission⟩ := bind_eq_ok.mp hemission
  obtain rfl := Except.ok.inj hemission
  have hstart : Emitting registry graph.laneIds graph.lanes graph.edges.dependsOn
      { lanes := graph.lanes, dependsOn := graph.edges.dependsOn } :=
    emitting_start (fun x hx => hmerged.mem_laneIds.mpr hx) hmerged.dependsOn hmerged.laneNodup
      hmerged.dependsOnNodup
  have hperm := perm_allocationOrder graph
  obtain ⟨hemitting, hallocated⟩ := foldlM_emitLane (hperm.nodup_iff.mpr hmerged.nodup_laneIds)
    (fun x hx => hperm.mem_iff.mp hx) hwork hstart hseen
  have hemitted := holdUncovered_emitted hwork hemitting hheld
  obtain ⟨hext, hkinds⟩ := holdUncovered_keeps hheld
  exact ⟨seen, held, hemitting, hallocated, hext, hkinds, hemitted.lanesNodup,
    hemitted.dependsOnNodup, rfl, rfl, perm_insertionSort _ _, perm_insertionSort _ _⟩

end

/-- A remote backend, and one local reviewer of another family. -/
def loneRegistry : Registry where
  specs :=
    [("codex-remote", ⟨"cli", "remote", "codex", 10, true, true⟩),
      ("claude-code", ⟨"cli", "remote_api", "claude", 30, true, false⟩)]
  distinct := by decide

/-- A junior lane `a`, a neighbour that comes before it, and a chain that gives them slack. -/
def neighbourItems : List Fields :=
  [sampleItem "a" ["src/a"] [("test_cmd", .str "make a")],
    sampleItem "a__verify" ["src/v"] [("severity", .str "high")],
    sampleItem "b" ["src/b"] [], sampleItem "c" ["src/c"] [("depends_on", .arr [.str "b"])]]

/-- Junior lanes are allowed. -/
def juniorOptions : Options where
  taskRef := "T-1"
  calibrationAccepted := true
  overlaySourcePaths := some []

end Workbay.Compiler
