import Workbay.Ancestry.Proofs.ContainmentProofs
import Workbay.Graph.Proofs.VisitProofs
import Mathlib.Order.Preorder.Finite

/-!
# Proofs: what is discharged is contained in a safe tip
-/

namespace Workbay.Ancestry

open Relation Workbay.Graph List

section

variable {κ : Type} [PartialOrder κ] {git : Git κ} {branches : List String}
  {integrationRef : String}

/-! ## Candidates lead to commits -/

/-- A containment listing of a ref that leads to no commit fails. -/
def ListingFails (git : Git κ) : Prop :=
  ∀ ref ∈ git.refs, git.commit ref = none → ∀ outcome,
    git.run (containsCommand ref) = some outcome → outcome.exitCode ≠ 0

theorem probe_exitCode {run : CommandRunner} {refs : List String}
    {index : Dict String (List String)} {integration : Option String} :
    ∀ (names : List String) {start built : Dict String (List String)},
      probe run refs index integration names start = .ok built →
      ∀ name ∈ names, name ≠ "" → ∀ ref, canonicalRef name refs = .ok (some ref) →
        ∃ outcome, run (containsCommand ref) = some outcome ∧ outcome.exitCode = 0 := by
  intro names
  induction names with
  | nil => simp
  | cons first names ih =>
    intro start built h name hname hne ref href
    rw [probe] at h
    by_cases hempty : first = ""
    · rw [if_pos hempty] at h
      rcases mem_cons.mp hname with rfl | hname
      · exact absurd hempty hne
      · exact ih h name hname hne ref href
    rw [if_neg hempty] at h
    cases hfirst : canonicalRef first refs with
    | error error => simp [hfirst] at h
    | ok result =>
      cases result with
      | none =>
        simp only [hfirst] at h
        rcases mem_cons.mp hname with rfl | hname
        · simp [hfirst] at href
        · exact ih h name hname hne ref href
      | some canon =>
        cases hrun : run (containsCommand canon) with
        | none => simp [hfirst, hrun] at h
        | some outcome =>
          simp only [hfirst, hrun] at h
          split at h
          · simp at h
          rename_i hexit
          rcases mem_cons.mp hname with rfl | hname
          · obtain rfl := Option.some.inj (Except.ok.inj (hfirst.symm.trans href))
            exact ⟨outcome, hrun, not_not.mp hexit⟩
          · exact ih h name hname hne ref href

variable {order : SetOrder} {built : Dict String (List String)}

theorem commit_of_containmentMap (hfails : ListingFails git)
    (h : containmentMap order branches git.run integrationRef = .ok built) :
    ∀ name ref, git.Spells branches name ref → (git.commit ref).isSome := by
  intro name ref hspells
  have hrefs : refNamespace git.run = .ok git.refs.dedup := by
    unfold refNamespace
    simp only [git.refs_listed]
    rw [if_neg (by simp), Text.lines_unlines fun ref href => (git.refs_word ref href).isLine]
  unfold containmentMap at h
  simp only at h
  split at h
  · rename_i hnone
    have hin : name ∈ (branches.filter (· ≠ "")).dedup := by
      simp [hspells.1, hspells.2.1]
    rw [hnone] at hin
    simp at hin
  rw [hrefs] at h
  obtain ⟨_, hrefsOk, h⟩ := bind_eq_ok.mp h
  obtain rfl := Except.ok.inj hrefsOk
  obtain ⟨index, -, h⟩ := bind_eq_ok.mp h
  split at h
  · simp [bind, Except.bind] at h
  obtain ⟨integration, -, h⟩ := bind_eq_ok.mp h
  obtain ⟨outcome, hrun, hexit⟩ := probe_exitCode branches h name hspells.1 hspells.2.1 ref
    (by rw [canonicalRef_dedup]; exact hspells.2.2)
  by_contra hnone
  exact hfails ref (canonicalRef_mem hspells.2.2) (Option.not_isSome_iff_eq_none.mp hnone) outcome
    hrun hexit

variable {graph : ContainmentGraph}

theorem analyze_eq_ok {containedBy : Dict String (List String)}
    (h : analyze order containedBy = .ok graph) :
    graph.nodes = (normalize containedBy).map Prod.fst ∧
      graph.containers = normalize containedBy := by
  unfold analyze at h
  simp only at h
  split at h
  · cases h
  · split at h
    · cases h
    · obtain rfl := Except.ok.inj h
      exact ⟨rfl, rfl⟩

theorem containedBy_of_mem_containedNodes
    (hmap : IsContainmentMap git branches integrationRef built)
    (h : analyze order built = .ok graph) {x y : String} (hx : x ∈ containedNodes graph y) :
    git.ContainedBy branches integrationRef x y := by
  unfold containedNodes at hx
  rw [(analyze_eq_ok h).2] at hx
  obtain ⟨⟨name, conts⟩, hin, rfl⟩ := mem_map.mp hx
  obtain ⟨hin, hy⟩ := mem_filter.mp hin
  refine (mem_containersOf hmap).mp ?_
  have hget : Dict.get? (normalize built) name = some conts := by
    unfold normalize at hin ⊢
    obtain ⟨key, hkey, heq⟩ := mem_map.mp hin
    obtain ⟨rfl, rfl⟩ := Prod.mk.inj heq
    rw [Dict.get?_map_key, if_pos hkey]
  rw [containersOf, Dict.getD, hget]
  simpa using hy

theorem transGen_of_mem_ancestorsOn (hmap : IsContainmentMap git branches integrationRef built)
    (h : analyze order built = .ok graph) {name tip : String} (hin : name ∈ ancestorsOn graph tip) :
    TransGen (git.ContainedBy branches integrationRef) name tip := by
  unfold ancestorsOn at hin
  split at hin
  · obtain ⟨hvisit, -⟩ := mem_filter.mp hin
    have hdomain : ∀ x, (if x ∈ graph.nodes then containedNodes graph x else []) ≠ [] →
        x ∈ graph.nodes := by
      intro x hx
      by_contra hnot
      exact hx (if_neg hnot)
    obtain ⟨start, hstart, hpath⟩ := (mem_visit hdomain).mp hvisit
    have hback : ReflTransGen (git.ContainedBy branches integrationRef) name start := by
      clear hvisit hin
      induction hpath with
      | refl => exact ReflTransGen.refl
      | tail _ hstep ih =>
        refine ReflTransGen.head ?_ ih
        unfold Step at hstep
        simp only at hstep
        split at hstep
        · exact containedBy_of_mem_containedNodes hmap h hstep
        · cases hstep
    exact TransGen.tail' hback (containedBy_of_mem_containedNodes hmap h hstart)
  · cases hin

theorem not_aliasTie_of_analyze (hmap : IsContainmentMap git branches integrationRef built)
    (hcommit : ∀ name ref, git.Spells branches name ref → (git.commit ref).isSome)
    (h : analyze order built = .ok graph) : ¬ git.AliasTie branches integrationRef := by
  intro halias
  obtain ⟨components, hclass, hall, hresult⟩ := analyze_spec order built
  have hcontainers : ∀ x y, y ∈ containersOf (normalize built) x ↔
      git.ContainedBy branches integrationRef x y := fun x y => mem_containersOf hmap
  obtain ⟨name, ref, hspells, hnot⟩ :=
    not_isSameCommitTie_of_aliasTie (edge_iff_containedBy order hmap) hcontainers hcommit halias
  obtain ⟨c, hc, hin⟩ := hall name ((mem_nodeNames hmap).mpr ⟨ref, hspells⟩)
  rcases hresult with ⟨-, htie⟩ | ⟨⟨members, herror⟩, -⟩
  · exact hnot c hin (hclass c hc) (htie c hc)
  · simp [h] at herror

/-- The commits of the safe tips that can become containers. -/
def tipCommits (git : Git κ) (branches : List String) (integrationRef : String)
    (safe : List String) : Set κ :=
  {d | ∃ tip ∈ safe, ∃ ref, git.Spells branches tip ref ∧ git.Container integrationRef ref ∧
    git.commit ref = some d}

theorem tipCommits_finite (git : Git κ) (branches : List String) (integrationRef : String)
    (safe : List String) : (tipCommits git branches integrationRef safe).Finite := by
  refine (finite_toSet (git.refs.filterMap git.commit)).subset ?_
  rintro d ⟨tip, -, ref, hspells, -, hd⟩
  exact mem_filterMap.mpr ⟨ref, canonicalRef_mem hspells.2.2, hd⟩

theorem mem_discharged {safe names : List String}
    (hmap : IsContainmentMap git branches integrationRef built)
    (h : analyze order built = .ok graph)
    (hnames : dischargedByReachability order built safe = .ok names) {name : String}
    (hin : name ∈ names) :
    name ∉ safe ∧ ∃ tip ∈ safe, TransGen (git.ContainedBy branches integrationRef) name tip := by
  unfold dischargedByReachability at hnames
  rw [h] at hnames
  obtain rfl := Except.ok.inj hnames
  obtain ⟨hin, hnot⟩ := mem_filter.mp hin
  obtain ⟨tip, htip, hbelow⟩ := mem_flatMap.mp (mem_dedup.mp hin)
  have hpath := transGen_of_mem_ancestorsOn hmap h hbelow
  obtain ⟨ref, -, -, -, hspells, -⟩ := containedBy_transGen hpath
  refine ⟨fun hsafe => ?_, tip, mem_of_mem_filter (mem_dedup.mp htip), hpath⟩
  simp [hsafe, hspells.2.1] at hnot

/-- A name that is discharged is at or below the commit of a safe tip, and no name that is
discharged spells the ref of that tip. -/
theorem discharged_sound {order order' : SetOrder} {built : Dict String (List String)}
    {safe names : List String} (hfails : ListingFails git)
    (hbuilt : containmentMap order branches git.run integrationRef = .ok built)
    (hnames : dischargedByReachability order' built safe = .ok names) :
    ∀ name ∈ names, ∃ tip ∈ safe, ∃ ref tipRef c d,
      git.Spells branches name ref ∧ git.Spells branches tip tipRef ∧
      git.commit ref = some c ∧ git.commit tipRef = some d ∧ c ≤ d ∧
      ∀ other ∈ names, ¬ git.Spells branches other tipRef := by
  intro name hname
  have hcommit := commit_of_containmentMap hfails hbuilt
  have hmap := containmentMap_spec hbuilt hcommit
  cases hanalyze : analyze order' built with
  | error error => simp [dischargedByReachability, hanalyze, Except.map] at hnames
  | ok graph =>
    obtain ⟨-, tip, htip, hpath⟩ := mem_discharged hmap hanalyze hnames hname
    obtain ⟨ref, tipRef, c, d, hspells, htipSpells, hcontainer, hc, hd, hle⟩ :=
      containedBy_transGen hpath
    -- the highest safe tip above this one
    obtain ⟨top, hdtop, hmax⟩ := (tipCommits_finite git branches integrationRef safe).exists_le_maximal
      ⟨tip, htip, tipRef, htipSpells, hcontainer, hd⟩
    obtain ⟨topTip, htopTip, topRef, htopSpells, htopContainer, htop⟩ := hmax.prop
    refine ⟨topTip, htopTip, ref, topRef, c, top, hspells, htopSpells, hc, htop,
      hle.trans hdtop, fun other hother hotherSpells => ?_⟩
    -- a second spelling of it that is discharged would be a tie with a safe tip at its commit
    obtain ⟨hnot, tip', htip', hpath'⟩ := mem_discharged hmap hanalyze hnames hother
    obtain ⟨next, hstep, hrest⟩ := TransGen.head'_iff.mp hpath'
    obtain ⟨ref₁, nextRef, c₁, e, hspells₁, hnextSpells, hne, hnextContainer, hc₁, he, hle₁⟩ := hstep
    obtain rfl := hotherSpells.unique hspells₁
    obtain rfl := Option.some.inj (htop.symm.trans hc₁)
    have hsame : e ≤ top := by
      rcases reflTransGen_iff_eq_or_transGen.mp hrest with rfl | hrest
      · exact hmax.2 ⟨tip', htip', nextRef, hnextSpells, hnextContainer, he⟩ hle₁
      · obtain ⟨ref₂, tipRef', e₂, d', hspells₂, htipSpells', hcontainer', he₂, hd', hle'⟩ :=
          containedBy_transGen hrest
        obtain rfl := hnextSpells.unique hspells₂
        obtain rfl := Option.some.inj (he.symm.trans he₂)
        exact hle'.trans
          (hmax.2 ⟨tip', htip', tipRef', htipSpells', hcontainer', hd'⟩ (hle₁.trans hle'))
    obtain rfl := le_antisymm hle₁ hsame
    have hdistinct : topTip ≠ other := by
      rintro rfl
      exact hnot htopTip
    exact not_aliasTie_of_analyze hmap hcommit hanalyze ⟨topTip, other, next, topRef, nextRef,
      hdistinct, htopSpells, hotherSpells, hnextSpells, hne.symm, htopContainer, hnextContainer,
      htop.trans he.symm⟩

end

/-- Of two branches at one commit the one that is not safe is discharged. -/
theorem discharged_sound_two_branches :
    containmentMap plainOrder ["a", "b"] twoBranches.run "main" = .ok [("a", ["b"]), ("b", ["a"])] ∧
    dischargedByReachability plainOrder [("a", ["b"]), ("b", ["a"])] ["b"] = .ok ["a"] ∧
    ∀ name ∈ ["a"], ∃ tip ∈ ["b"], ∃ ref tipRef c d,
      twoBranches.Spells ["a", "b"] name ref ∧ twoBranches.Spells ["a", "b"] tip tipRef ∧
      twoBranches.commit ref = some c ∧ twoBranches.commit tipRef = some d ∧ c ≤ d ∧
      ∀ other ∈ ["a"], ¬ twoBranches.Spells ["a", "b"] other tipRef := by
  have hbuilt : containmentMap plainOrder ["a", "b"] twoBranches.run "main" =
      .ok [("a", ["b"]), ("b", ["a"])] := by decide +kernel
  have hnames : dischargedByReachability plainOrder [("a", ["b"]), ("b", ["a"])] ["b"] =
      .ok ["a"] := by decide +kernel
  exact ⟨hbuilt, hnames, discharged_sound (fun ref _ hnone => nomatch hnone) hbuilt hnames⟩

end Workbay.Ancestry
