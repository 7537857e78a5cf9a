import Mathlib.Order.CompleteBooleanAlgebra
import Mathlib.Order.CompletePartialOrder
import Workbay.Ancestry.Proofs.ListingProofs
import Workbay.Graph.Proofs.StronglyConnectedProofs

/-!
# Proofs: which containment maps have a cycle
-/

namespace Workbay.Ancestry

open Relation Workbay.Graph List

section

variable {κ : Type} [PartialOrder κ] {git : Git κ}

theorem mem_nodeNames {branches : List String} {integrationRef : String}
    {built : Dict String (List String)}
    (h : IsContainmentMap git branches integrationRef built) {name : String} :
    name ∈ nodeNames built ↔ ∃ ref, git.Spells branches name ref := by
  unfold nodeNames
  rw [mem_dedup, mem_flatMap]
  constructor
  · rintro ⟨⟨key, vals⟩, hin, hname⟩
    obtain ⟨hkey, hvals⟩ := h.entry key vals hin
    simp only at hname
    split at hname
    · simp at hname
    rcases mem_cons.mp hname with rfl | hname
    · exact hkey
    · obtain ⟨-, ref', -, -, -, hspells, -⟩ := (hvals name).mp (mem_of_mem_filter hname)
      exact ⟨ref', hspells⟩
  · rintro ⟨ref, hspells⟩
    obtain ⟨vals, hvals⟩ := Option.isSome_iff_exists.mp (h.found name ref hspells)
    exact ⟨(name, vals), Dict.mem_of_get? hvals, by simp [hspells.2.1]⟩

theorem mem_containersOf {branches : List String} {integrationRef : String}
    {built : Dict String (List String)}
    (h : IsContainmentMap git branches integrationRef built) {name container : String} :
    container ∈ containersOf (normalize built) name ↔
      git.ContainedBy branches integrationRef name container := by
  unfold containersOf normalize
  simp only [Dict.getD, Dict.get?_map_key]
  by_cases hname : name ∈ nodeNames built
  · obtain ⟨ref, hspells⟩ := (mem_nodeNames h).mp hname
    obtain ⟨vals, hvals⟩ := Option.isSome_iff_exists.mp (h.found name ref hspells)
    have hraw : Dict.get? (built.filter fun e => decide (e.1 ≠ "")) name = some vals := by
      rw [Dict.get?_filter_key built (fun key => decide (key ≠ "")) (by simp [hspells.2.1])]
      exact hvals
    rw [if_pos hname, Option.getD_some, hraw, Option.getD_some, mem_dedup, mem_filter,
      (h.entry name vals (Dict.mem_of_get? hvals)).2 container]
    refine and_iff_left_of_imp ?_
    rintro ⟨ref₁, ref', c, d, hspells₁, hspells', hne, -⟩
    simp only [ne_eq, decide_eq_true_eq]
    refine ⟨hspells'.2.1, ?_⟩
    rintro rfl
    exact hne (hspells'.unique hspells₁)
  · rw [if_neg hname, Option.getD_none]
    refine ⟨fun hin => absurd hin not_mem_nil, ?_⟩
    rintro ⟨ref, ref', c, d, hspells, -⟩
    exact absurd ((mem_nodeNames h).mpr ⟨ref, hspells⟩) hname

end

theorem isSameCommitTie_iff {members : List String} {containers : Dict String (List String)} :
    isSameCommitTie members containers = true ↔ members.dedup.length ≤ 1 ∨
      ((∀ left ∈ members, ∀ right ∈ members, left = right ∨ right ∈ containersOf containers left) ∧
        ∀ left ∈ members, ∀ right ∈ members, ∀ name ∈ containersOf containers left,
          name ∉ members → name ∈ containersOf containers right) := by
  simp only [isSameCommitTie, externals, Bool.or_eq_true, Bool.and_eq_true, all_eq_true,
    decide_eq_true_eq, mem_dedup, mem_filter]
  refine or_congr_right (and_congr_right fun _ => ?_)
  refine forall₄_congr fun left _ right _ => ?_
  exact ⟨fun h name hin hnot => (h name ⟨hin, hnot⟩).1,
    fun h name hin => ⟨h name hin.1 hin.2, hin.2⟩⟩

theorem classes_spec {containers : Dict String (List String)} :
    ∀ (components : List (List String)) (start : Dict String (List String)),
      ((∃ classOf, classes containers components start = .ok classOf) ∧
        ∀ c ∈ components, isSameCommitTie c containers = true) ∨
      ((∃ members, classes containers components start = .error (.cycle members)) ∧
        ∃ c ∈ components, isSameCommitTie c containers ≠ true) := by
  intro components
  induction components with
  | nil => exact fun start => .inl ⟨⟨start, rfl⟩, by simp⟩
  | cons c components ih =>
    intro start
    rw [classes]
    by_cases htie : isSameCommitTie c containers = true
    · rw [if_pos htie]
      rcases ih _ with ⟨hok, hall⟩ | ⟨herror, c', hc', hnot⟩
      · refine .inl ⟨hok, fun c' hc' => ?_⟩
        rcases mem_cons.mp hc' with rfl | hc'
        · exact htie
        · exact hall c' hc'
      · exact .inr ⟨herror, c', mem_cons_of_mem _ hc', hnot⟩
    · rw [if_neg htie]
      exact .inr ⟨⟨_, rfl⟩, c, mem_cons_self, htie⟩

theorem analyze_spec (order : SetOrder) (containedBy : Dict String (List String)) :
    ∃ components : List (List String),
      (∀ c ∈ components, ∀ x ∈ c, ∀ y, y ∈ c ↔
        Connected (((normalize containedBy).map Prod.fst).insertionSort (· ≤ ·))
          (fun vertex => order.iter (containersOf (normalize containedBy) vertex)) x y) ∧
      (∀ name ∈ nodeNames containedBy, ∃ c ∈ components, name ∈ c) ∧
      (((∃ graph, analyze order containedBy = .ok graph) ∧
          ∀ c ∈ components, isSameCommitTie c (normalize containedBy) = true) ∨
        ((∃ members, analyze order containedBy = .error (.cycle members)) ∧
          ∃ c ∈ components, isSameCommitTie c (normalize containedBy) ≠ true)) := by
  obtain ⟨components, hfound, hclasses, hall⟩ :=
    stronglyConnected_spec (((normalize containedBy).map Prod.fst).insertionSort (· ≤ ·))
      fun vertex => order.iter (containersOf (normalize containedBy) vertex)
  refine ⟨components, fun c hc x hx => ((hclasses c hc).2 x hx).2, fun name hname => hall name ?_, ?_⟩
  · rw [mem_insertionSort]
    simpa [normalize] using hname
  · rcases classes_spec components [] with ⟨⟨classOf, hok⟩, htie⟩ | ⟨⟨members, herror⟩, hnot⟩
    · refine .inl ⟨?_, htie⟩
      simp only [analyze, stronglyConnectedNames, hfound, hok]
      exact ⟨_, rfl⟩
    · refine .inr ⟨⟨members, ?_⟩, hnot⟩
      simp only [analyze, stronglyConnectedNames, hfound, herror]

section

variable {κ : Type} [PartialOrder κ] {git : Git κ} {branches : List String}
  {integrationRef : String}

variable {x y : String} {vertices : List String}

theorem containedBy_transGen (h : TransGen (git.ContainedBy branches integrationRef) x y) :
    ∃ ref ref' c d, git.Spells branches x ref ∧ git.Spells branches y ref' ∧
      git.Container integrationRef ref' ∧ git.commit ref = some c ∧ git.commit ref' = some d ∧
      c ≤ d := by
  induction h with
  | single hxy =>
    obtain ⟨ref, ref', c, d, hspells, hspells', -, hcontainer, hc, hd, hle⟩ := hxy
    exact ⟨ref, ref', c, d, hspells, hspells', hcontainer, hc, hd, hle⟩
  | tail hxy hyz ih =>
    obtain ⟨ref, ref₂, c, d₂, hspells, hspells₂, -, hc, hd₂, hle₂⟩ := ih
    obtain ⟨ref₁, ref', c₁, d, hspells₁, hspells', -, hcontainer, hc₁, hd, hle⟩ := hyz
    obtain rfl := hspells₁.unique hspells₂
    obtain rfl := Option.some.inj (hc₁.symm.trans hd₂)
    exact ⟨ref, ref', c, d, hspells, hspells', hcontainer, hc, hd, hle₂.trans hle⟩

variable {successors : String → List String}

theorem reach_up
    (hedge : ∀ x y, Edge vertices successors x y → git.ContainedBy branches integrationRef x y)
    (h : Reach vertices successors x y) : x = y ∨
      ∃ ref ref' c d, git.Spells branches x ref ∧ git.Spells branches y ref' ∧
        git.Container integrationRef ref' ∧ git.commit ref = some c ∧ git.commit ref' = some d ∧
        c ≤ d := by
  rcases reflTransGen_iff_eq_or_transGen.mp h with heq | hpath
  · exact .inl heq.symm
  · exact .inr (containedBy_transGen (hpath.lift id hedge))

/-- Two names of one class are containers at one commit. -/
def Tied (git : Git κ) (branches : List String) (integrationRef x y : String) : Prop :=
  ∃ ref ref' c, git.Spells branches x ref ∧ git.Spells branches y ref' ∧
    git.Container integrationRef ref ∧ git.Container integrationRef ref' ∧
    git.commit ref = some c ∧ git.commit ref' = some c

theorem tied_of_connected
    (hedge : ∀ x y, Edge vertices successors x y → git.ContainedBy branches integrationRef x y)
    (h : Connected vertices successors x y) (hne : x ≠ y) :
    Tied git branches integrationRef x y := by
  obtain ⟨ref, ref', c, d, hspells, hspells', hcontainer', hc, hd, hle⟩ :=
    (reach_up hedge h.1).resolve_left hne
  obtain ⟨ref₁, ref₂, d₁, c₁, hspells₁, hspells₂, hcontainer, hd₁, hc₁, hle'⟩ :=
    (reach_up hedge h.2).resolve_left hne.symm
  obtain rfl := hspells'.unique hspells₁
  obtain rfl := hspells.unique hspells₂
  obtain rfl := Option.some.inj (hd.symm.trans hd₁)
  obtain rfl := Option.some.inj (hc.symm.trans hc₁)
  obtain rfl := le_antisymm hle hle'
  exact ⟨ref, ref', c, hspells, hspells', hcontainer, hcontainer', hc, hd⟩

theorem Tied.containedBy (h : Tied git branches integrationRef x y)
    (hne : ∀ ref, ¬ (git.Spells branches x ref ∧ git.Spells branches y ref)) :
    git.ContainedBy branches integrationRef x y := by
  obtain ⟨ref, ref', c, hspells, hspells', -, hcontainer', hc, hc'⟩ := h
  refine ⟨ref, ref', c, c, hspells, hspells', ?_, hcontainer', hc, hc', le_rfl⟩
  rintro rfl
  exact hne ref' ⟨hspells, hspells'⟩

theorem isSameCommitTie_of_class {containers : Dict String (List String)}
    (hedge : ∀ x y, Edge vertices successors x y ↔ git.ContainedBy branches integrationRef x y)
    (hcontainers : ∀ x y, y ∈ containersOf containers x ↔
      git.ContainedBy branches integrationRef x y) (hno : ¬ git.AliasTie branches integrationRef)
    {c : List String} (hclass : ∀ x ∈ c, ∀ y, y ∈ c ↔ Connected vertices successors x y) :
    isSameCommitTie c containers = true := by
  have hup : ∀ x y, Edge vertices successors x y → git.ContainedBy branches integrationRef x y :=
    fun x y => (hedge x y).mp
  -- two names of the class spell different branches
  have hdistinct : ∀ x ∈ c, ∀ y ∈ c, x ≠ y → ∀ ref,
      ¬ (git.Spells branches x ref ∧ git.Spells branches y ref) := by
    intro x hx y hy hne ref hboth
    have hxy : Connected vertices successors x y := (hclass x hx y).mp hy
    obtain heq | ⟨z, hxz, hzy⟩ := (ReflTransGen.cases_head hxy.1)
    · exact hne heq
    obtain ⟨ref₁, ref', c₁, d, hspells₁, hspells', hne', hcontainer', hc₁, hd, -⟩ := hup x z hxz
    obtain rfl := hboth.1.unique hspells₁
    have hxz' : Connected vertices successors x z :=
      ⟨ReflTransGen.single hxz, hzy.trans hxy.2⟩
    have hnez : x ≠ z := by
      rintro rfl
      exact hne' (hspells'.unique hspells₁)
    obtain ⟨ref₂, ref₃, c₂, hspells₂, hspells₃, hcontainer₂, -, hc₂, hc₃⟩ := tied_of_connected hup hxz' hnez
    obtain rfl := hspells₁.unique hspells₂
    obtain rfl := hspells'.unique hspells₃
    exact hno ⟨x, y, z, ref, ref', hne, hboth.1, hboth.2, hspells', hne'.symm, hcontainer₂,
      hcontainer', hc₂.trans hc₃.symm⟩
  refine isSameCommitTie_iff.mpr (.inr ⟨fun left hl right hr => ?_, fun left hl right hr name
    hname hnot => ?_⟩)
  · by_cases heq : left = right
    · exact .inl heq
    · have htied := tied_of_connected hup ((hclass left hl right).mp hr) heq
      exact .inr ((hcontainers left right).mpr
        (htied.containedBy (hdistinct left hl right hr heq)))
  · by_cases heq : left = right
    · exact heq ▸ hname
    have hcontained := (hcontainers left name).mp hname
    obtain ⟨ref, ref', c₁, d, hspells, hspells', hne, hcontainer', hc₁, hd, hle⟩ := hcontained
    obtain ⟨ref₁, refr, c₂, hspells₁, hspellsr, hcontainer₁, hcontainerr, hc₂, hcr⟩ :=
      tied_of_connected hup ((hclass left hl right).mp hr) heq
    obtain rfl := hspells.unique hspells₁
    obtain rfl := Option.some.inj (hc₁.symm.trans hc₂)
    rw [hcontainers]
    by_cases hself : ref' = refr
    · -- an alias of `right` outside the class would be connected with `left`
      subst hself
      obtain rfl := Option.some.inj (hcr.symm.trans hd)
      have hback : git.ContainedBy branches integrationRef name left :=
        ⟨ref', ref, c₁, c₁, hspells', hspells, hne.symm, hcontainer₁, hd, hc₁, le_rfl⟩
      have hin : name ∈ c := (hclass left hl name).mpr
        ⟨ReflTransGen.single ((hedge _ _).mpr ((hcontainers left name).mp hname)),
          ReflTransGen.single ((hedge _ _).mpr hback)⟩
      exact absurd hin hnot
    · exact ⟨refr, ref', c₁, d, hspellsr, hspells', hself, hcontainer', hcr, hd, hle⟩

theorem not_isSameCommitTie_of_aliasTie {containers : Dict String (List String)}
    (hedge : ∀ x y, Edge vertices successors x y ↔ git.ContainedBy branches integrationRef x y)
    (hcontainers : ∀ x y, y ∈ containersOf containers x ↔
      git.ContainedBy branches integrationRef x y)
    (hcommit : ∀ name ref, git.Spells branches name ref → (git.commit ref).isSome)
    (halias : git.AliasTie branches integrationRef) :
    ∃ name ref, git.Spells branches name ref ∧ ∀ c : List String, name ∈ c →
      (∀ x ∈ c, ∀ y, y ∈ c ↔ Connected vertices successors x y) →
      isSameCommitTie c containers ≠ true := by
  obtain ⟨a, a', b, ref, ref', hne, ha, ha', hb, hrefs, hcontainer, hcontainer', hsame⟩ := halias
  obtain ⟨d, hd⟩ := Option.isSome_iff_exists.mp (hcommit b ref' hb)
  have hto : ∀ x, git.Spells branches x ref → git.ContainedBy branches integrationRef x b :=
    fun x hx => ⟨ref, ref', d, d, hx, hb, hrefs.symm, hcontainer', hsame.trans hd, hd, le_rfl⟩
  have hfrom : ∀ x, git.Spells branches x ref → git.ContainedBy branches integrationRef b x :=
    fun x hx => ⟨ref', ref, d, d, hb, hx, hrefs, hcontainer, hd, hsame.trans hd, le_rfl⟩
  have hstep : ∀ x y, git.Spells branches x ref → git.Spells branches y ref →
      Reach vertices successors x y := fun x y hx hy =>
    ReflTransGen.head ((hedge _ _).mpr (hto x hx))
      (ReflTransGen.single ((hedge _ _).mpr (hfrom y hy)))
  refine ⟨a, ref, ha, fun c hac hclass htie => ?_⟩
  have ha'c : a' ∈ c := (hclass a hac a').mpr ⟨hstep a a' ha ha', hstep a' a ha' ha⟩
  rcases isSameCommitTie_iff.mp htie with hlen | ⟨hmutual, -⟩
  · -- two different members are more than one
    have hpair : [a, a'].Subperm c.dedup := by
      refine subperm_of_subset (by simp [hne]) ?_
      intro x hx
      rw [mem_dedup]
      rcases mem_cons.mp hx with rfl | hx
      · exact hac
      · exact mem_singleton.mp hx ▸ ha'c
    have hle := hpair.length_le
    simp only [length_cons, length_nil] at hle
    omega
  · rcases hmutual a hac a' ha'c with heq | hin
    · exact hne heq
    · obtain ⟨ref₁, ref₂, -, -, hspells₁, hspells₂, hne', -⟩ := (hcontainers a a').mp hin
      obtain rfl := ha.unique hspells₁
      exact hne' (hspells₂.unique ha')

theorem edge_iff_containedBy (order : SetOrder) {built : Dict String (List String)}
    (hmap : IsContainmentMap git branches integrationRef built) (x y : String) :
    Edge (((normalize built).map Prod.fst).insertionSort (· ≤ ·))
        (fun vertex => order.iter (containersOf (normalize built) vertex)) x y ↔
      git.ContainedBy branches integrationRef x y := by
  unfold Edge
  rw [(order.perm _).mem_iff, mem_containersOf hmap]
  refine and_iff_left_of_imp fun hcontained => ?_
  obtain ⟨-, ref', -, -, -, hspells', -⟩ := hcontained
  have hnode := (mem_nodeNames hmap).mpr ⟨ref', hspells'⟩
  rw [mem_insertionSort]
  simpa [normalize] using hnode

/-- The containment map of candidates that lead to commits is analysed without a cycle error exactly
when no branch among them is spelled in two ways while another one is at the same commit. -/
theorem containment_cycle_iff {order : SetOrder} {built : Dict String (List String)}
    (h : containmentMap order branches git.run integrationRef = .ok built)
    (hcommit : ∀ name ref, git.Spells branches name ref → (git.commit ref).isSome) :
    ((∃ graph, analyze order built = .ok graph) ↔ ¬ git.AliasTie branches integrationRef) ∧
      ((∃ members, analyze order built = .error (.cycle members)) ↔
        git.AliasTie branches integrationRef) := by
  have hmap := containmentMap_spec h hcommit
  obtain ⟨components, hclass, hall, hresult⟩ := analyze_spec order built
  have hcontainers : ∀ x y, y ∈ containersOf (normalize built) x ↔
      git.ContainedBy branches integrationRef x y := fun x y => mem_containersOf hmap
  have hedge := edge_iff_containedBy order hmap
  by_cases halias : git.AliasTie branches integrationRef
  · have hbad : ∃ c ∈ components, isSameCommitTie c (normalize built) ≠ true := by
      obtain ⟨name, ref, hspells, hnot⟩ :=
        not_isSameCommitTie_of_aliasTie hedge hcontainers hcommit halias
      obtain ⟨c, hc, hin⟩ := hall name ((mem_nodeNames hmap).mpr ⟨ref, hspells⟩)
      exact ⟨c, hc, hnot c hin (hclass c hc)⟩
    rcases hresult with ⟨-, htie⟩ | ⟨⟨members, herror⟩, -⟩
    · obtain ⟨c, hc, hnot⟩ := hbad
      exact absurd (htie c hc) hnot
    · refine ⟨iff_of_false ?_ (not_not.mpr halias), iff_of_true ⟨members, herror⟩ halias⟩
      rintro ⟨graph, hgraph⟩
      simp [herror] at hgraph
  · rcases hresult with ⟨⟨graph, hgraph⟩, -⟩ | ⟨-, c, hc, hnot⟩
    · refine ⟨iff_of_true ⟨graph, hgraph⟩ halias, iff_of_false ?_ halias⟩
      rintro ⟨members, herror⟩
      simp [hgraph] at herror
    · exact absurd (isSameCommitTie_of_class hedge hcontainers halias (hclass c hc)) hnot

end

/-! ## Two branches at one commit -/

/-- Sets iterated as they are. -/
def plainOrder : SetOrder := ⟨id, fun _ => List.Perm.refl _⟩

/-- Two branches at the only commit. -/
def twoBranches : Git Unit where
  refs := ["refs/heads/a", "refs/heads/b"]
  commit _ := some ()
  short ref := if ref = "refs/heads/a" then "a" else "b"
  run argv :=
    if argv = ["git", "for-each-ref", "--format=%(refname)"] then
      some ⟨Text.unlines ["refs/heads/a", "refs/heads/b"], 0⟩
    else some ⟨Text.unlines ["a", "b"], 0⟩
  refs_word := by decide +kernel
  branch_named := by decide +kernel
  refs_listed := if_pos rfl
  branches_listed := by
    intro ref _ c _
    refine ⟨[], ["refs/heads/a", "refs/heads/b"], ?_, by simp, fun branch => ?_⟩
    · rw [if_neg (by simp [containsCommand])]
      rfl
    · refine ⟨fun hin => ⟨hin, ?_, (), rfl, le_rfl⟩, And.left⟩
      revert branch
      decide +kernel
  short_denotes := by decide +kernel

/-- The branches are a tie. -/
theorem containment_cycle_iff_two_branches : ∃ built,
    containmentMap plainOrder ["a", "b"] twoBranches.run "main" = .ok built ∧
      ∃ graph, analyze plainOrder built = .ok graph := by
  have h : containmentMap plainOrder ["a", "b"] twoBranches.run "main" =
      .ok [("a", ["b"]), ("b", ["a"])] := by decide +kernel
  refine ⟨_, h, (containment_cycle_iff h fun _ _ _ => rfl).1.mpr ?_⟩
  have hspellings : ∀ x ∈ ["a", "b"], ∀ y ∈ ["a", "b"],
      canonicalRef x twoBranches.refs = canonicalRef y twoBranches.refs → x = y := by
    decide +kernel
  rintro ⟨x, y, z, ref, ref', hne, hx, hy, -⟩
  exact hne (hspellings x hx.1 y hy.1 (hx.2.2.trans hy.2.2.symm))

/-- A second spelling of one branch makes the map cyclic. -/
theorem second_spelling_refused : ∃ built,
    containmentMap plainOrder ["a", "refs/heads/a", "b"] twoBranches.run "main" = .ok built ∧
      analyze plainOrder built = .error (.cycle ["a", "b", "refs/heads/a"]) :=
  ⟨[("a", ["b"]), ("refs/heads/a", ["b"]), ("b", ["a", "refs/heads/a"])], by decide +kernel,
    by decide +kernel⟩

end Workbay.Ancestry
