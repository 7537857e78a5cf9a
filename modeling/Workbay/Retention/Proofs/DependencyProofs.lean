import Workbay.Graph.Proofs.KosarajuProofs
import Workbay.Graph.Proofs.PeelProofs
import Workbay.Retention.Dependencies

/-!
# Proofs: which resources are eligible

The components are those of the graph of open edges, and a resource is eligible exactly when nothing
holds it.
-/

namespace Workbay.Retention

open Relation Workbay.Graph List

namespace Inventory

variable {q q' : Inventory} {key : ResourceIdentity → String} {r x y : ResourceIdentity}

/-- An open edge leads from a consumer to a provider. -/
def Needs (q : Inventory) (x y : ResourceIdentity) : Prop :=
  ∃ e ∈ q.edges, q.isOpen e = true ∧ e.consumer = x ∧ e.provider = y

/-- A node is held, whatever needs it. -/
def Held (q : Inventory) (x : ResourceIdentity) : Prop :=
  x ∉ q.resources ∨ x.owner ≠ q.owner ∨ proofProblem (q.clearance x) q.now.instant ≠ none ∨
    proofProblem q.inventoryComplete q.now.instant ≠ none ∨ (∃ y, q.Needs y x) ∨
    TransGen q.Needs x x

/-- Nothing holds a resource. -/
structure Clear (q : Inventory) (r : ResourceIdentity) : Prop where
  registered : r ∈ q.resources
  owned : r.owner = q.owner
  cleared : proofProblem (q.clearance r) q.now.instant = none
  inventoried : proofProblem q.inventoryComplete q.now.instant = none
  unneeded : ∀ e ∈ q.edges, q.isOpen e = true → e.provider ≠ r
  acyclic : ¬ TransGen q.Needs r r
  unreached : ∀ x ∈ q.nodes, q.Held x → ¬ TransGen q.Needs x r

theorem mem_nodes : r ∈ q.nodes ↔ r ∈ q.resources ∨ ∃ e ∈ q.edges, e.consumer = r ∨ e.provider = r := by
  simp only [nodes, mem_fresh, mem_append, mem_map, not_mem_nil, not_false_eq_true,
    and_true]
  constructor
  · rintro ((hr | ⟨e, he, h⟩) | ⟨e, he, h⟩)
    · exact .inl hr
    · exact .inr ⟨e, he, .inl h⟩
    · exact .inr ⟨e, he, .inr h⟩
  · rintro (hr | ⟨e, he, h | h⟩)
    · exact .inl (.inl hr)
    · exact .inl (.inr ⟨e, he, h⟩)
    · exact .inr ⟨e, he, h⟩

theorem mem_graph : y ∈ q.graph x ↔ q.Needs x y := by
  simp only [graph, mem_fresh, mem_map, mem_filter, Bool.and_eq_true, decide_eq_true_eq,
    not_mem_nil, not_false_eq_true, and_true, Needs]
  constructor
  · rintro ⟨e, ⟨he, hopen, hx⟩, hy⟩
    exact ⟨e, he, hopen, hx, hy⟩
  · rintro ⟨e, he, hopen, hx, hy⟩
    exact ⟨e, ⟨he, hopen, hx⟩, hy⟩

theorem mem_reverse : y ∈ q.reverse x ↔ q.Needs y x := by
  simp only [reverse, mem_fresh, mem_map, mem_filter, Bool.and_eq_true, decide_eq_true_eq,
    not_mem_nil, not_false_eq_true, and_true, Needs]
  constructor
  · rintro ⟨e, ⟨he, hopen, hx⟩, hy⟩
    exact ⟨e, he, hopen, hy, hx⟩
  · rintro ⟨e, he, hopen, hy, hx⟩
    exact ⟨e, ⟨he, hopen, hx⟩, hy⟩

theorem Needs.nodes (h : q.Needs x y) : x ∈ q.nodes ∧ y ∈ q.nodes := by
  obtain ⟨e, he, -, hx, hy⟩ := h
  exact ⟨mem_nodes.mpr (.inr ⟨e, he, .inl hx⟩), mem_nodes.mpr (.inr ⟨e, he, .inr hy⟩)⟩

theorem mem_sortedBy {xs : List ResourceIdentity} : x ∈ sortedBy key xs ↔ x ∈ xs :=
  (perm_insertionSort _ _).mem_iff

theorem mem_sortedDownBy {xs : List ResourceIdentity} : x ∈ sortedDownBy key xs ↔ x ∈ xs :=
  (perm_insertionSort _ _).mem_iff

theorem step_sortedDownBy :
    Step (fun x => sortedDownBy key (q.graph x)) = q.Needs := by
  funext x y
  exact propext (mem_sortedDownBy.trans mem_graph)

theorem members_spec (q : Inventory) (key : ResourceIdentity → String) :
    (∀ c ∈ q.members key, ∃ x ∈ q.nodes, ∀ y,
        y ∈ c ↔ ReflTransGen q.Needs x y ∧ ReflTransGen q.Needs y x) ∧
      (∀ x ∈ q.nodes, ∃ c ∈ q.members key, x ∈ c) ∧ (q.members key).flatten.Nodup := by
  have hvertices : ∀ x, ∀ y ∈ sortedDownBy key (q.graph x), y ∈ sortedBy key q.nodes :=
    fun x y hy => mem_sortedBy.mpr (mem_graph.mp (mem_sortedDownBy.mp hy)).nodes.2
  have hprev : ∀ x y, y ∈ sortedBy key (q.reverse x) ↔
      x ∈ sortedDownBy key (q.graph y) ∧ y ∈ sortedBy key q.nodes := by
    intro x y
    rw [mem_sortedBy, mem_reverse, mem_sortedDownBy, mem_graph, mem_sortedBy]
    exact ⟨fun h => ⟨h, h.nodes.1⟩, fun h => h.1⟩
  obtain ⟨hcomponent, hcover, hnodup⟩ := kosaraju_spec hvertices hprev
  refine ⟨fun c hc => ?_, fun x hx => hcover x (mem_sortedBy.mpr hx), hnodup⟩
  obtain ⟨x, hx, hmem⟩ := hcomponent c hc
  refine ⟨x, mem_sortedBy.mp hx, fun y => ?_⟩
  rw [hmem y, SameComponent, step_sortedDownBy]

theorem sccHeld_iff {c : List ResourceIdentity} (hc : c ∈ q.members key) (hr : r ∈ c) :
    q.sccHeld c = true ↔ TransGen q.Needs r r := by
  obtain ⟨hcomponent, -, hnodup⟩ := members_spec q key
  obtain ⟨x, -, hmem⟩ := hcomponent c hc
  have hcnodup : c.Nodup := (nodup_flatten.mp hnodup).1 c hc
  have hsame : ∀ y ∈ c, ReflTransGen q.Needs r y ∧ ReflTransGen q.Needs y r := fun y hy =>
    ⟨((hmem r).mp hr).2.trans ((hmem y).mp hy).1, ((hmem y).mp hy).2.trans ((hmem r).mp hr).1⟩
  have hloop : ∀ y, q.Needs y y → y ∈ c → TransGen q.Needs r r := fun y hstep hy =>
    TransGen.trans_right (hsame y hy).1 (TransGen.head' hstep (hsame y hy).2)
  rw [sccHeld, Bool.or_eq_true, decide_eq_true_eq, Option.any_eq_true]
  constructor
  · rintro (hlen | ⟨start, hstart, hself⟩)
    · -- another member is reached and reaches back
      have hother : ∃ y ∈ c, y ≠ r := by
        by_contra hnone
        push Not at hnone
        have hsub : c ⊆ [r] := fun y hy => mem_singleton.mpr (hnone y hy)
        have := (subperm_of_subset hcnodup hsub).length_le
        rw [length_singleton] at this
        omega
      obtain ⟨y, hy, hne⟩ := hother
      obtain ⟨hto, hback⟩ := hsame y hy
      rcases ReflTransGen.cases_head hto with heq | ⟨z, hstep, hrest⟩
      · exact absurd heq.symm hne
      · exact TransGen.head' hstep (hrest.trans hback)
    · refine hloop start (mem_graph.mp (of_decide_eq_true hself)) ?_
      exact mem_of_mem_head? hstart
  · intro hcycle
    obtain ⟨z, hstep, hrest⟩ := TransGen.head'_iff.mp hcycle
    have hz : z ∈ c := (hmem z).mpr ⟨((hmem r).mp hr).1.tail hstep, hrest.trans ((hmem r).mp hr).2⟩
    cases c with
    | nil => cases hr
    | cons start rest =>
      cases rest with
      | cons _ _ => exact .inl (Nat.succ_lt_succ (Nat.succ_pos _))
      | nil =>
        obtain rfl := mem_singleton.mp hr
        obtain rfl := mem_singleton.mp hz
        exact .inr ⟨z, rfl, decide_eq_true (mem_graph.mpr hstep)⟩

theorem reason_eq_nil {p : Prop} [Decidable p] (reason : String) :
    (if p then [reason] else []) = [] ↔ ¬ p := by
  by_cases hp : p <;> simp [hp]

theorem reason_unless_eq_nil {p : Prop} [Decidable p] (reason : String) :
    (if p then [] else [reason]) = [] ↔ p := by
  by_cases hp : p <;> simp [hp]

theorem baseReasons_eq_nil (hr : r ∈ q.nodes) : q.baseReasons key r = [] ↔ ¬ q.Held r := by
  obtain ⟨c, hc, hrc⟩ := (members_spec q key).2.1 r hr
  have hscc : ((q.members key).any fun c => q.sccHeld c && c.contains r) = true ↔
      TransGen q.Needs r r := by
    rw [any_eq_true]
    constructor
    · rintro ⟨c', hc', h⟩
      rw [Bool.and_eq_true, contains_iff_mem] at h
      exact (sccHeld_iff hc' h.2).mp h.1
    · intro hcycle
      refine ⟨c, hc, ?_⟩
      rw [Bool.and_eq_true, contains_iff_mem]
      exact ⟨(sccHeld_iff hc hrc).mpr hcycle, hrc⟩
  have hneeded : (q.edges.filter fun e => q.isOpen e && e.provider = r) = [] ↔
      ¬ ∃ y, q.Needs y r := by
    rw [filter_eq_nil_iff]
    constructor
    · rintro hnone ⟨y, e, he, hopen, -, hprovider⟩
      exact hnone e he (by simp [hopen, hprovider])
    · intro hnone e he h
      rw [Bool.and_eq_true, decide_eq_true_eq] at h
      exact hnone ⟨e.consumer, e, he, h.1, rfl, h.2⟩
  simp only [baseReasons, ownReasons, append_eq_nil_iff, map_eq_nil_iff, hneeded,
    Option.toList_eq_nil_iff, Option.map_eq_none_iff, reason_eq_nil, reason_unless_eq_nil, hscc, Held,
    ne_eq, not_or, not_not, and_assoc]

theorem mem_consumerHeld :
    r ∈ q.consumerHeld key ↔ ∃ x ∈ q.nodes, q.baseReasons key x ≠ [] ∧ TransGen q.Needs x r := by
  have hdomain : ∀ x y, y ∈ q.graph x → y ∈ q.nodes := fun x y hy => (mem_graph.mp hy).nodes.2
  have hfuel : (q.nodes.filter fun r => q.baseReasons key r ≠ []).length +
      (q.nodes.filter fun u => u ∉ ([] : List ResourceIdentity)).length ≤ 2 * q.nodes.length := by
    have h1 := length_filter_le (fun r => decide (q.baseReasons key r ≠ [])) q.nodes
    have h2 := length_filter_le (fun u => decide (u ∉ ([] : List ResourceIdentity))) q.nodes
    omega
  have hstep : StepOutside q.graph [] = q.Needs := by
    funext a b
    refine propext ⟨fun h => mem_graph.mp h.1, fun h => ⟨mem_graph.mpr h, not_mem_nil⟩⟩
  rw [consumerHeld, (flood_spec atEnd_perm hdomain _ _ _ _ hfuel r).1, hstep]
  constructor
  · rintro (hnil | ⟨x, hx, hpath⟩)
    · cases hnil
    · obtain ⟨hnode, hheld⟩ := mem_filter.mp hx
      exact ⟨x, hnode, of_decide_eq_true hheld, hpath⟩
  · rintro ⟨x, hnode, hheld, hpath⟩
    exact .inr ⟨x, mem_filter.mpr ⟨hnode, decide_eq_true hheld⟩, hpath⟩

theorem reasons_eq_nil (hr : r ∈ q.resources) : q.reasons key r = [] ↔ q.Clear r := by
  have hnode : r ∈ q.nodes := mem_nodes.mpr (.inl hr)
  have hnil : q.reasons key r = [] ↔ q.baseReasons key r = [] ∧ r ∉ q.consumerHeld key := by
    rw [← reason_eq_nil "consumer_held", ← append_eq_nil_iff, reasons,
      eq_nil_iff_forall_not_mem, eq_nil_iff_forall_not_mem]
    simp only [mem_fresh, not_mem_nil, not_false_eq_true, and_true]
  rw [hnil, baseReasons_eq_nil hnode, mem_consumerHeld]
  constructor
  · rintro ⟨hown, hreached⟩
    simp only [Held, not_or, not_not] at hown
    obtain ⟨-, howned, hcleared, hinventoried, hunneeded, hacyclic⟩ := hown
    refine ⟨hr, howned, hcleared, hinventoried, fun e he hopen hprovider => ?_, hacyclic,
      fun x hx hheld hpath => ?_⟩
    · exact hunneeded ⟨e.consumer, e, he, hopen, rfl, hprovider⟩
    · exact hreached ⟨x, hx, fun h => (baseReasons_eq_nil hx).mp h hheld, hpath⟩
  · intro h
    refine ⟨?_, ?_⟩
    · rintro (hreg | howner | hclear | hinv | ⟨y, e, he, hopen, -, hprovider⟩ | hcycle)
      · exact hreg hr
      · exact howner h.owned
      · exact hclear h.cleared
      · exact hinv h.inventoried
      · exact h.unneeded e he hopen hprovider
      · exact h.acyclic hcycle
    · rintro ⟨x, hx, hheld, hpath⟩
      refine h.unreached x hx ?_ hpath
      by_contra hnot
      exact hheld ((baseReasons_eq_nil hx).mpr hnot)

theorem mem_eligible : r ∈ q.eligible key ↔ q.Clear r := by
  rw [eligible, mem_filter, decide_eq_true_eq]
  exact ⟨fun h => (reasons_eq_nil h.1).mp h.2, fun h => ⟨h.registered, (reasons_eq_nil h.registered).mpr h⟩⟩

end Inventory

end Workbay.Retention
