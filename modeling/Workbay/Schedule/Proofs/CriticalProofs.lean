import Workbay.Schedule.Proofs.ManifestLayerProofs
import Workbay.Schedule.Proofs.SlackProofs

/-!
# Bottlenecks

What is reached without a lane is what a path from a root leads to that does not pass through it, so that a
lane is critical exactly if all paths to some other lane pass through it.
-/

namespace Workbay.Schedule

open Relation Workbay.Graph Workbay.Manifest List

section

variable {laneIds : List String} {dependsOn : DependsOn}

/-- A path from a lane without prerequisites, each lane a prerequisite of the next one. -/
structure RootPath (laneIds : List String) (dependsOn : DependsOn) (path : List String)
    (last : String) : Prop where
  chain : path.IsChain fun a b => a ∈ prereqsOf (declaredDependsOn laneIds dependsOn) b
  root : ∀ x ∈ path.head?, x ∈ laneIds ∧ prereqsOf (declaredDependsOn laneIds dependsOn) x = []
  last : path.getLast? = some last

theorem mem_dependencyRoots {x : String} :
    x ∈ dependencyRoots laneIds (declaredDependsOn laneIds dependsOn) ↔
      x ∈ laneIds ∧ prereqsOf (declaredDependsOn laneIds dependsOn) x = [] := by
  unfold dependencyRoots
  rw [mem_filter, decide_eq_true_eq, eq_nil_iff_forall_not_mem]
  refine and_congr_right fun _ => ⟨fun hnone y hy => hnone ⟨y, hy, (mem_declared hy).2⟩, ?_⟩
  rintro hnil ⟨y, hy, -⟩
  exact hnil y hy

theorem mem_reachableFromRoots
    (hacyclic : Acyclic (prereqsOf (declaredDependsOn laneIds dependsOn)))
    (hkeys : (dependsOn.map Prod.fst).Nodup) (forbidden : Option String) (last : String) :
    last ∈ reachableFromRoots laneIds (dependencyRoots laneIds (declaredDependsOn laneIds dependsOn))
        (schedulingForward laneIds (declaredDependsOn laneIds dependsOn)) forbidden ↔
      ∃ path, RootPath laneIds dependsOn path last ∧ ∀ x ∈ path, some x ≠ forbidden := by
  have hforward := mem_forward_declared hacyclic hkeys
  set forward := schedulingForward laneIds (declaredDependsOn laneIds dependsOn) with hdef
  have hstep : ∀ a b, Step (fun laneId => (forward laneId).filter fun x => some x ≠ forbidden) a b ↔
      a ∈ prereqsOf (declaredDependsOn laneIds dependsOn) b ∧ some b ≠ forbidden := by
    intro a b
    unfold Step
    rw [mem_filter, decide_eq_true_eq, hforward]
  have hdomain : ∀ x, ((forward x).filter fun y => some y ≠ forbidden) ≠ [] → x ∈ laneIds := by
    intro x hne
    obtain ⟨y, hy⟩ := exists_mem_of_ne_nil _ hne
    exact (mem_declared ((hforward x y).mp (mem_filter.mp hy).1)).2
  unfold reachableFromRoots
  rw [mem_visit hdomain]
  constructor
  · rintro ⟨s, hs, hreach⟩
    obtain ⟨hroot, hallowed⟩ := mem_filter.mp hs
    obtain ⟨p, hp, hlast⟩ := exists_isChain_cons_of_relationReflTransGen hreach
    refine ⟨s :: p, ⟨hp.imp fun a b hab => ((hstep a b).mp hab).1, fun x hx => ?_, ?_⟩, fun x hx => ?_⟩
    · obtain rfl := Option.some.inj hx
      exact mem_dependencyRoots.mp hroot
    · rw [getLast?_eq_some_getLast (cons_ne_nil s p), hlast]
    · rcases mem_cons.mp hx with rfl | hx
      · exact of_decide_eq_true hallowed
      · obtain ⟨y, -, hyx⟩ := TransGen.tail'_iff.mp (transGen_of_isChain hp x hx)
        exact ((hstep y x).mp hyx).2
  · rintro ⟨path, ⟨hchain, hroot, hlast⟩, hallowed⟩
    cases path with
    | nil => cases hlast
    | cons s p =>
      refine ⟨s, mem_filter.mpr ⟨mem_dependencyRoots.mpr (hroot s rfl),
        decide_eq_true (hallowed s mem_cons_self)⟩, ?_⟩
      have hp : (s :: p).IsChain (Step fun laneId => (forward laneId).filter fun x =>
          some x ≠ forbidden) := by
        refine isChain_iff_getElem.mpr fun i hi => (hstep _ _).mpr ⟨?_, ?_⟩
        · exact isChain_iff_getElem.mp hchain i hi
        · exact hallowed _ (getElem_mem _)
      refine relationReflTransGen_of_exists_isChain_cons p hp ?_
      rw [getLast?_eq_some_getLast (cons_ne_nil s p)] at hlast
      exact Option.some.inj hlast

/-- A lane is critical exactly if it is on every path to some other lane that paths lead to. -/
def CriticalRight (laneIds : List String) (dependsOn : DependsOn) : Prop :=
  ∀ x, x ∈ directedCriticalLanes laneIds (declaredDependsOn laneIds dependsOn) ↔
    ∃ lane, lane ≠ x ∧ (∃ path, RootPath laneIds dependsOn path lane) ∧
      ∀ path, RootPath laneIds dependsOn path lane → x ∈ path

theorem RootPath.mem_laneIds {path : List String} {last : String}
    (h : RootPath laneIds dependsOn path last) : ∀ x ∈ path, x ∈ laneIds := by
  cases path with
  | nil => exact fun _ hx => (by cases hx)
  | cons s p =>
    exact forall_of_isChain (Q := (· ∈ laneIds))
      (fun _ _ hab => ⟨(mem_declared hab).2, (mem_declared hab).1⟩) h.chain mem_cons_self
      (h.root s rfl).1

theorem criticalRight (hacyclic : Acyclic (prereqsOf (declaredDependsOn laneIds dependsOn)))
    (hkeys : (dependsOn.map Prod.fst).Nodup) : CriticalRight laneIds dependsOn := by
  have hreach := mem_reachableFromRoots hacyclic hkeys
  have hpath : ∀ lane x, (∃ path, RootPath laneIds dependsOn path lane) →
      (lane ∉ reachableFromRoots laneIds
        (dependencyRoots laneIds (declaredDependsOn laneIds dependsOn))
        (schedulingForward laneIds (declaredDependsOn laneIds dependsOn)) (some x) ↔
      ∀ path, RootPath laneIds dependsOn path lane → x ∈ path) := by
    intro lane x _
    rw [hreach]
    constructor
    · intro hnone path hroot
      by_contra hx
      exact hnone ⟨path, hroot, fun y hy heq => hx (Option.some.inj heq ▸ hy)⟩
    · rintro hall ⟨path, hroot, hfree⟩
      exact hfree x (hall path hroot) rfl
  intro x
  unfold directedCriticalLanes
  constructor
  · intro hx
    split_ifs at hx with hlen
    · cases hx
    · obtain ⟨-, hex⟩ := mem_filter.mp hx
      obtain ⟨lane, -, hne, hout, hin⟩ := of_decide_eq_true hex
      obtain ⟨path, hroot, -⟩ := (hreach none lane).mp hin
      exact ⟨lane, hne, ⟨path, hroot⟩, (hpath lane x ⟨path, hroot⟩).mp hout⟩
  · rintro ⟨lane, hne, ⟨path, hroot⟩, hall⟩
    have hx : x ∈ laneIds := hroot.mem_laneIds x (hall path hroot)
    have hlane : lane ∈ laneIds :=
      hroot.mem_laneIds lane (mem_of_getLast? hroot.last)
    have hlen : ¬ laneIds.length < 2 := by
      have hsub : [lane, x].length ≤ laneIds.length := by
        refine (List.Nodup.subperm (by simpa using hne) fun y hy => ?_).length_le
        rcases mem_cons.mp hy with rfl | hy
        · exact hlane
        · exact mem_singleton.mp hy ▸ hx
      rw [length_cons, length_singleton] at hsub
      omega
    rw [if_neg hlen]
    refine mem_filter.mpr ⟨hx, decide_eq_true ⟨lane, hlane, hne, ?_, ?_⟩⟩
    · exact (hpath lane x ⟨path, hroot⟩).mpr hall
    · exact (hreach none lane).mpr ⟨path, hroot, fun _ _ => Option.some_ne_none _⟩

/-- In a graph without cycles slack and critical lanes are right exactly if every lane has a longest chain
in time. -/
theorem slack_critical_iff (hnodup : laneIds.Nodup) (hkeys : (dependsOn.map Prod.fst).Nodup)
    (hacyclic : Acyclic (prereqsOf (declaredDependsOn laneIds dependsOn))) :
    SlackRight laneIds dependsOn ∧ CriticalRight laneIds dependsOn ↔ InTime laneIds dependsOn := by
  rw [slackRight_iff hacyclic hnodup hkeys]
  exact and_iff_left (criticalRight hacyclic hkeys)

end

/-! ## A length that is passed on too early -/

/-- The lane `x` lists the lane `a` twice and stands in one layer with `z`, which it waits for. -/
def lateManifest : LaneManifest where
  fields :=
    [("task_ref", .str "T-1"), ("merge_order", .arr []),
      ("lanes", .obj [("a", sampleLane "a" []), ("c", sampleLane "c" []), ("x", sampleLane "x" []),
        ("y", sampleLane "y" []), ("z", sampleLane "z" [])]),
      ("downstream", .obj []),
      ("depends_on", .obj [("x", .arr [.str "a", .str "a", .str "z"]), ("y", .arr [.str "x"]),
        ("z", .arr [.str "c"])])]
  distinct := by decide +kernel

theorem lateManifest_accepted : Accepted sampleHost lateManifest.fields :=
  validateManifest_eq_ok.mp (by decide +kernel)

theorem slack_critical_iff_late :
    SlackRight (laneIds lateManifest.fields) (listedDependsOn lateManifest.fields) ∧
        CriticalRight (laneIds lateManifest.fields) (listedDependsOn lateManifest.fields) ↔
      InTime (laneIds lateManifest.fields) (listedDependsOn lateManifest.fields) :=
  slack_critical_iff (laneIds_nodup lateManifest) (listedDependsOn_nodup lateManifest_accepted)
    (acyclic_declared_manifest lateManifest_accepted)

theorem lateManifest_slack :
    computeSlack (laneIds lateManifest.fields) (listedDependsOn lateManifest.fields) =
      .ok [("a", 1), ("c", 0), ("x", 0), ("y", 1), ("z", 0)] := by
  decide +kernel

/-- In a graph without cycles a lane of a longest chain can be given a slack. -/
theorem computeSlack_late : ¬ ∀ (laneIds : List String) (dependsOn : DependsOn), laneIds.Nodup →
    (dependsOn.map Prod.fst).Nodup → Acyclic (prereqsOf (declaredDependsOn laneIds dependsOn)) →
      SlackRight laneIds dependsOn ∧ CriticalRight laneIds dependsOn := by
  intro h
  have hkeys := listedDependsOn_nodup lateManifest_accepted
  have hacyclic := acyclic_declared_manifest lateManifest_accepted
  obtain ⟨⟨slack, hok, -, hright⟩, -⟩ := h _ _ (laneIds_nodup lateManifest) hkeys hacyclic
  obtain rfl := Except.ok.inj (lateManifest_slack.symm.trans hok)
  obtain ⟨m, n, hm, hn, hc, -⟩ := hright "c" (by decide +kernel)
  obtain ⟨m', n', hm', hn', hy, -⟩ := hright "y" (by decide +kernel)
  obtain rfl := hm.unique hm'
  have hnc := hn.unique (longestOf_through hacyclic hkeys (by decide +kernel))
  have hny := hn'.unique (longestOf_through hacyclic hkeys (by decide +kernel))
  have hthree : n = 3 := hnc.trans (by decide +kernel)
  have hthree' : n' = 3 := hny.trans (by decide +kernel)
  have hc' : (0 : Int) = m - n := Option.some.inj hc
  have hy' : (1 : Int) = m - n' := Option.some.inj hy
  omega

/-- On every graph without cycles, also where slack and layers go wrong, a lane is dispatched after all
lanes that it depends on, and each lane once. -/
theorem dispatchOrder_follows {laneIds : List String} {dependsOn : DependsOn}
    (hkeys : (dependsOn.map Prod.fst).Nodup)
    (hacyclic : Acyclic (prereqsOf (declaredDependsOn laneIds dependsOn))) :
    (dispatchOrder laneIds dependsOn).Perm laneIds ∧
      (dispatchOrder laneIds dependsOn).Pairwise fun a b =>
        ¬ TransGen (Step (prereqsOf (declaredDependsOn laneIds dependsOn))) a b := by
  set chain := chainFrom (schedulingForward laneIds (declaredDependsOn laneIds dependsOn))
    laneIds.length with hchain
  -- a chain below a lane goes on below the lanes that it depends on
  have hlt : ∀ a b, TransGen (Step (prereqsOf (declaredDependsOn laneIds dependsOn))) a b →
      chain a < chain b := by
    have hstep : ∀ a b, Step (prereqsOf (declaredDependsOn laneIds dependsOn)) a b →
        chain a < chain b := fun a b hab =>
      (longestFrom_forward hacyclic hkeys b).lt (longestFrom_forward hacyclic hkeys a) hab
    intro a b hab
    induction hab with
    | single hab => exact hstep _ _ hab
    | tail _ hbc ih => exact ih.trans (hstep _ _ hbc)
  refine ⟨perm_insertionSort _ _, ?_⟩
  set key := dispatchKey laneIds (declaredDependsOn laneIds dependsOn) with hkey
  have : Std.Total fun a b => key a ≤ key b := ⟨fun a b => le_total (key a) (key b)⟩
  have : IsTrans String fun a b => key a ≤ key b := ⟨fun _ _ _ => le_trans⟩
  refine (pairwise_insertionSort (fun a b => key a ≤ key b) laneIds).imp fun {a b} hab hdepends => ?_
  have hle : chain b ≤ chain a := Prod.Lex.monotone_fst _ _ hab
  have hgt := hlt a b hdepends
  omega

theorem dispatchOrder_follows_late :
    (dispatchOrder (laneIds lateManifest.fields) (listedDependsOn lateManifest.fields)).Perm
      (laneIds lateManifest.fields) :=
  (dispatchOrder_follows (listedDependsOn_nodup lateManifest_accepted)
    (acyclic_declared_manifest lateManifest_accepted)).1

end Workbay.Schedule
