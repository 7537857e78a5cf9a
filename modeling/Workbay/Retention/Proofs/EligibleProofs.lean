import Workbay.Retention.Proofs.DependencyProofs

/-!
# Proofs: what an analysis says

Eligibility is exact and only shrinks as edges are added and proofs lost. The order respects the
released edges, save where a released cycle lets a provider be taken early.
-/

namespace Workbay.Retention

open Relation Workbay.Graph

variable {digests : Digests} {q q' : Inventory} {analysis analysis' : DependencyAnalysis}

theorem analyzeDependencies_ok (h : analyzeDependencies digests q = .ok analysis) :
    q.resources.Nodup ∧
      analysis.eligibleOrder = peel digests.canonicalDigest q.waitsFor
        (q.eligible digests.canonicalDigest) ∧
      analysis.components = (q.members digests.canonicalDigest).map
        (sortedBy digests.canonicalDigest) ∧
      analysis.snapshots = (((q.members digests.canonicalDigest).map
        (sortedBy digests.canonicalDigest)).flatMap fun component =>
          (component.filter (· ∈ q.resources)).map fun r => (r, q.snapshot digests component r)) := by
  unfold analyzeDependencies at h
  split_ifs at h with hnodup
  obtain rfl := Except.ok.inj h
  exact ⟨hnodup, rfl, rfl, rfl⟩

theorem nodup_eligible (key : ResourceIdentity → String) (h : q.resources.Nodup) :
    (q.eligible key).Nodup := h.filter _

theorem mem_eligibleOrder (h : analyzeDependencies digests q = .ok analysis) {r : ResourceIdentity} :
    r ∈ analysis.eligibleOrder ↔ q.Clear r := by
  obtain ⟨hnodup, horder, -⟩ := analyzeDependencies_ok h
  rw [horder, (peel_perm (nodup_eligible _ hnodup)).mem_iff, Inventory.mem_eligible]

theorem flatten_sortedBy (key : ResourceIdentity → String) (components : List (List ResourceIdentity)) :
    (components.map (sortedBy key)).flatten.Perm components.flatten := by
  induction components with
  | nil => exact List.Perm.nil
  | cons c components ih => exact (List.perm_insertionSort _ _).append ih

namespace Inventory

/-- A proof is the same, or it is no good any more. -/
def ProofLost (now : Timestamp) (proof proof' : Proof) : Prop :=
  proof' = proof ∨ proofProblem proof' now.instant ≠ none

/-- Edges are added and proofs are lost. -/
structure Weakened (q q' : Inventory) : Prop where
  registrations : q'.registrations = q.registrations
  owner : q'.owner = q.owner
  now : q'.now = q.now
  inventoryComplete : ProofLost q.now q.inventoryComplete q'.inventoryComplete
  clearances : ∀ r, ProofLost q.now (q.clearance r) (q'.clearance r)
  edges : ∀ e ∈ q.edges, ∃ e' ∈ q'.edges, e'.consumer = e.consumer ∧ e'.provider = e.provider ∧
    e'.relation = e.relation ∧ e'.state = e.state ∧ ProofLost q.now e.proof e'.proof

theorem ProofLost.problem {now : Timestamp} {proof proof' : Proof} (h : ProofLost now proof proof')
    (hproblem : proofProblem proof now.instant ≠ none) : proofProblem proof' now.instant ≠ none := by
  rcases h with rfl | h
  · exact hproblem
  · exact h

theorem Weakened.resources (h : Weakened q q') : q'.resources = q.resources :=
  congrArg (·.map (·.resource)) h.registrations

theorem Weakened.needs (h : Weakened q q') {x y : ResourceIdentity} (hneeds : q.Needs x y) :
    q'.Needs x y := by
  obtain ⟨e, he, hopen, hx, hy⟩ := hneeds
  obtain ⟨e', he', hconsumer, hprovider, -, hstate, hproof⟩ := h.edges e he
  refine ⟨e', he', ?_, hconsumer.trans hx, hprovider.trans hy⟩
  simp only [isOpen, Bool.or_eq_true, decide_eq_true_eq, ← Option.ne_none_iff_isSome] at hopen ⊢
  rw [h.now, hstate]
  exact hopen.imp_right hproof.problem

theorem Weakened.path (h : Weakened q q') {x y : ResourceIdentity} (hpath : TransGen q.Needs x y) :
    TransGen q'.Needs x y := hpath.lift id fun _ _ hstep => h.needs hstep

theorem Weakened.held (h : Weakened q q') {x : ResourceIdentity} (hheld : q.Held x) : q'.Held x := by
  rcases hheld with hreg | howner | hclear | hinv | ⟨y, hy⟩ | hcycle
  · exact .inl (h.resources ▸ hreg)
  · exact .inr (.inl (h.owner ▸ howner))
  · exact .inr (.inr (.inl (h.now ▸ (h.clearances x).problem hclear)))
  · exact .inr (.inr (.inr (.inl (h.now ▸ h.inventoryComplete.problem hinv))))
  · exact .inr (.inr (.inr (.inr (.inl ⟨y, h.needs hy⟩))))
  · exact .inr (.inr (.inr (.inr (.inr (h.path hcycle)))))

theorem Weakened.mem_nodes (h : Weakened q q') {x : ResourceIdentity} (hx : x ∈ q.nodes) :
    x ∈ q'.nodes := by
  rcases Inventory.mem_nodes.mp hx with hreg | ⟨e, he, hend⟩
  · exact Inventory.mem_nodes.mpr (.inl (h.resources ▸ hreg))
  · obtain ⟨e', he', hconsumer, hprovider, -⟩ := h.edges e he
    refine Inventory.mem_nodes.mpr (.inr ⟨e', he', ?_⟩)
    rw [hconsumer, hprovider]
    exact hend

theorem Weakened.clear (h : Weakened q q') {r : ResourceIdentity} (hclear : q'.Clear r) : q.Clear r := by
  refine ⟨h.resources ▸ hclear.registered, h.owner ▸ hclear.owned, ?_, ?_, fun e he hopen heq => ?_,
    fun hcycle => hclear.acyclic (h.path hcycle),
    fun x hx hheld hpath => hclear.unreached x (h.mem_nodes hx) (h.held hheld) (h.path hpath)⟩
  · by_contra hproblem
    exact (h.now ▸ (h.clearances r).problem hproblem) hclear.cleared
  · by_contra hproblem
    exact (h.now ▸ h.inventoryComplete.problem hproblem) hclear.inventoried
  · obtain ⟨e', he', hopen', -, hprovider⟩ := h.needs ⟨e, he, hopen, rfl, heq⟩
    exact hclear.unneeded e' he' hopen' hprovider

end Inventory

/-- The components are those of the graph of open edges, and a resource is eligible exactly when nothing
holds it; no resource becomes eligible as edges are added and proofs lost. -/
theorem analyzeDependencies_exact (h : analyzeDependencies digests q = .ok analysis)
    (h' : analyzeDependencies digests q' = .ok analysis') :
    (∀ c ∈ analysis.components, ∃ x ∈ q.nodes, ∀ y,
        y ∈ c ↔ ReflTransGen q.Needs x y ∧ ReflTransGen q.Needs y x) ∧
      (∀ x ∈ q.nodes, ∃ c ∈ analysis.components, x ∈ c) ∧ analysis.components.flatten.Nodup ∧
      (∀ r, r ∈ analysis.eligibleOrder ↔ q.Clear r) ∧
      (q.Weakened q' → analysis'.eligibleOrder ⊆ analysis.eligibleOrder) := by
  obtain ⟨-, -, hcomponents, -⟩ := analyzeDependencies_ok h
  obtain ⟨hmembers, hcover, hnodup⟩ :=
    Inventory.members_spec q digests.canonicalDigest
  rw [hcomponents]
  refine ⟨?_, ?_, ?_, fun r => mem_eligibleOrder h, fun hweak r hr => ?_⟩
  · intro c hc
    obtain ⟨members, hin, rfl⟩ := List.mem_map.mp hc
    obtain ⟨x, hx, hmem⟩ := hmembers members hin
    exact ⟨x, hx, fun y => Inventory.mem_sortedBy.trans (hmem y)⟩
  · intro x hx
    obtain ⟨c, hc, hxc⟩ := hcover x hx
    exact ⟨_, List.mem_map_of_mem hc, Inventory.mem_sortedBy.mpr hxc⟩
  · exact (flatten_sortedBy _ _).nodup_iff.mpr hnodup
  · exact (mem_eligibleOrder h).mpr (hweak.clear ((mem_eligibleOrder h').mp hr))

/-- A resource under its name. -/
def named (identity : String) : ResourceIdentity := ⟨⟨"repo:workbay"⟩, .gitWorktree, identity⟩

/-- The names as digests. -/
def namesAsDigests : Digests := ⟨(·.identity), fun _ => ⟨"r1-analysis:0", "sha256:0"⟩⟩

/-- A good proof at the time 1. -/
def goodProof : Proof :=
  ⟨.verified, [⟨"audit:1", "sha256:1"⟩], some ⟨0, 0⟩, some ⟨2, 0⟩⟩

def registrationOf (identity : String) : Registration :=
  { resource := named identity
    source := .git "0" "0"
    operation := .retire
    policyVersion := "1"
    evidence := [⟨"audit:1", "sha256:1"⟩]
    evidence_ne_nil := List.cons_ne_nil _ _ }

/-- Cleared resources with released edges between them. -/
def releasedInventory (identities : List String) (edges : List (String × String)) : Inventory :=
  { registrations := identities.map registrationOf
    owner := ⟨"repo:workbay"⟩
    edges := edges.map fun e => ⟨named e.1, named e.2, .git, .released, goodProof⟩
    inventoryComplete := goodProof
    clearances := identities.map fun identity => (named identity, goodProof)
    now := ⟨1, 0⟩ }

/-- A resource is eligible until an edge to it is added. -/
theorem analyzeDependencies_exact_lone : ∃ analysis analysis',
    analyzeDependencies namesAsDigests (releasedInventory ["a"] []) = .ok analysis ∧
      analyzeDependencies namesAsDigests (releasedInventory ["a"] [("b", "a")]) = .ok analysis' ∧
      (named "a" ∈ analysis.eligibleOrder ↔ (releasedInventory ["a"] []).Clear (named "a")) ∧
      ((releasedInventory ["a"] []).Weakened (releasedInventory ["a"] [("b", "a")]) →
        analysis'.eligibleOrder ⊆ analysis.eligibleOrder) := by
  obtain ⟨-, -, -, helig, hweak⟩ := analyzeDependencies_exact
    (show analyzeDependencies namesAsDigests (releasedInventory ["a"] []) = .ok _ from rfl)
    (show analyzeDependencies namesAsDigests (releasedInventory ["a"] [("b", "a")]) = .ok _ from rfl)
  exact ⟨_, _, rfl, rfl, helig _, hweak⟩

namespace Inventory

/-- An edge between eligible resources, released or not. -/
def EligibleEdge (q : Inventory) (x y : ResourceIdentity) : Prop :=
  q.Clear x ∧ q.Clear y ∧ ∃ e ∈ q.edges, e.consumer = x ∧ e.provider = y

/-- Two resources are on a common cycle of edges among eligible resources. -/
def OnCommonCycle (q : Inventory) (x y : ResourceIdentity) : Prop :=
  TransGen q.EligibleEdge x y ∧ TransGen q.EligibleEdge y x

/-- Every eligible resource is listed once, and the consumer of an edge that is not on a cycle comes
before the provider. -/
def Respects (q : Inventory) (order : List ResourceIdentity) : Prop :=
  order.Nodup ∧ (∀ r, r ∈ order ↔ q.Clear r) ∧
    ∀ e ∈ q.edges, q.Clear e.consumer → q.Clear e.provider →
      ¬ q.OnCommonCycle e.consumer e.provider → order.idxOf e.consumer < order.idxOf e.provider

/-- No provider of an edge that is not on a cycle comes, by its digest, before all of a cycle of eligible
resources that leads to the consumer, and of the way from there. -/
def NoEarlyProvider (key : ResourceIdentity → String) (q : Inventory) : Prop :=
  ∀ e ∈ q.edges, q.Clear e.consumer → q.Clear e.provider →
    ¬ q.OnCommonCycle e.consumer e.provider →
    ¬ WaitsForCycle q.waitsFor (fun x => q.Clear x ∧ Precedes key q.resources e.provider x) e.consumer

end Inventory

/-- An order respects the edges exactly when no provider comes before a released cycle that its consumer
waits for. -/
theorem eligibleOrder_respects_iff (h : analyzeDependencies digests q = .ok analysis) :
    q.Respects analysis.eligibleOrder ↔ q.NoEarlyProvider digests.canonicalDigest := by
  obtain ⟨hnodup, horder, -⟩ := analyzeDependencies_ok h
  have heligible := nodup_eligible digests.canonicalDigest hnodup
  have hfollows : Follows digests.canonicalDigest q.resources (q.eligible digests.canonicalDigest) :=
    Follows.filter (fun _ _ _ _ hle => hle) _
  have hsub : q.eligible digests.canonicalDigest ⊆ q.resources :=
    fun x hx => (List.mem_filter.mp hx).1
  have hedge : ∀ e ∈ q.edges, q.Clear e.consumer → q.Clear e.provider →
      ¬ q.OnCommonCycle e.consumer e.provider →
      (analysis.eligibleOrder.idxOf e.consumer < analysis.eligibleOrder.idxOf e.provider ↔
        ¬ WaitsForCycle q.waitsFor (fun x => q.Clear x ∧
          Precedes digests.canonicalDigest q.resources e.provider x) e.consumer) := by
    intro e he hconsumer hprovider hcycle
    have hne : e.consumer ≠ e.provider := by
      intro heq
      have hself : TransGen q.EligibleEdge e.consumer e.provider :=
        TransGen.single ⟨hconsumer, hprovider, e, he, rfl, rfl⟩
      exact hcycle ⟨hself, heq ▸ heq ▸ hself⟩
    have hwait : q.waitsFor e.provider e.consumer = true :=
      List.any_eq_true.mpr ⟨e, he, by simp [hne]⟩
    have hiff := peel_before_iff hfollows hsub hwait hne (Inventory.mem_eligible.mpr hconsumer)
      (Inventory.mem_eligible.mpr hprovider)
    simp only [Inventory.mem_eligible] at hiff
    rw [horder]
    exact hiff
  constructor
  · rintro ⟨-, -, hbefore⟩ e he hconsumer hprovider hcycle
    exact (hedge e he hconsumer hprovider hcycle).mp (hbefore e he hconsumer hprovider hcycle)
  · intro hnone
    refine ⟨?_, fun r => mem_eligibleOrder h, fun e he hconsumer hprovider hcycle => ?_⟩
    · rw [horder]
      exact (peel_perm heligible).nodup_iff.mpr heligible
    · exact (hedge e he hconsumer hprovider hcycle).mpr (hnone e he hconsumer hprovider hcycle)

theorem eligibleOrder_respects_iff_released : ∃ analysis,
    analyzeDependencies namesAsDigests (releasedInventory ["a", "b"] [("a", "b")]) = .ok analysis ∧
      ((releasedInventory ["a", "b"] [("a", "b")]).Respects analysis.eligibleOrder ↔
        (releasedInventory ["a", "b"] [("a", "b")]).NoEarlyProvider (·.identity)) :=
  ⟨_, rfl, eligibleOrder_respects_iff (show analyzeDependencies namesAsDigests
    (releasedInventory ["a", "b"] [("a", "b")]) = .ok _ from rfl)⟩

/-- Two resources that release each other, one that the first of them needed, and one that it needed in
turn: the last provider has the least digest. -/
def earlyProvider : Inventory :=
  releasedInventory ["p", "x", "y", "z"] [("x", "y"), ("y", "x"), ("x", "z"), ("z", "p")]

/-- The last provider is taken first, before its consumer. -/
theorem order_not_respected : ¬ ∀ (digests : Digests) (q : Inventory) (analysis : DependencyAnalysis),
    analyzeDependencies digests q = .ok analysis → q.Respects analysis.eligibleOrder := by
  intro h
  have horder : (analyzeDependencies namesAsDigests earlyProvider).map (·.eligibleOrder) =
      .ok [named "p", named "x", named "y", named "z"] := by decide +kernel
  cases hok : analyzeDependencies namesAsDigests earlyProvider with
  | error e => rw [hok] at horder; cases horder
  | ok analysis =>
    rw [hok] at horder
    have hlist : analysis.eligibleOrder = [named "p", named "x", named "y", named "z"] :=
      Except.ok.inj horder
    obtain ⟨-, hmem, hbefore⟩ := h _ _ _ hok
    have hclear : ∀ r ∈ [named "p", named "x", named "y", named "z"], earlyProvider.Clear r :=
      fun r hr => (hmem r).mp (hlist ▸ hr)
    have hcycle : ¬ earlyProvider.OnCommonCycle (named "z") (named "p") := by
      rintro ⟨-, hback⟩
      obtain ⟨r, ⟨-, -, e, he, hconsumer, -⟩, -⟩ := TransGen.head'_iff.mp hback
      have hnone : ∀ e ∈ earlyProvider.edges, e.consumer ≠ named "p" := by decide +kernel
      exact hnone e he hconsumer
    have hlt := hbefore ⟨named "z", named "p", .git, .released, goodProof⟩ (by decide +kernel)
      (hclear _ (by decide +kernel)) (hclear _ (by decide +kernel)) hcycle
    rw [hlist] at hlt
    exact absurd hlt (by decide +kernel)

end Workbay.Retention
