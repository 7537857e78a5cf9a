import Workbay.Wave.Proofs.SupervisorProofs

/-!
# Integrating a lane

What `integrate` returns is in the wave branch and contains the wave tip that it has read. It
contains the lane as well, unless the wave tip already had the tree and the subject of the merge:
then `integrate` takes it for an earlier merge of the lane without looking at its parents.

The rules are stated for any conduct under which others only move the repository forward.
-/

namespace Workbay.Wave

open Effects Git

/-- The wave tip lacks the lane, but has the tree and the subject that merging the lane would
give. -/
structure LooksIntegrated (repo : Repo) (wave : String) (laneId : LaneId)
    (oldTip laneTip : String) : Prop where
  apart : repo.isAncestor laneTip oldTip = some false
  tree : ∃ tree, repo.mergeTree oldTip laneTip = .clean tree ∧ isFullSha tree = true ∧
    repo.treeOf oldTip = some tree
  subject : repo.subjectOf oldTip = some (integrateMessage wave laneId)

/-- The commit `t` stands for the integration of a lane into the wave tip `oldTip`. -/
structure Integrated (repo : Repo) (wave : String) (laneId : LaneId) (oldTip laneTip t : String) :
    Prop extends Certified repo wave laneTip t where
  ahead : repo.graph.isAncestorOrEqual oldTip t = true
  lane : repo.isAncestor laneTip t = some true ↔ ¬ LooksIntegrated repo wave laneId oldTip laneTip

section

variable {repo repo' : Repo} {wave laneTip oldTip t : String} {laneId : LaneId}

theorem looksIntegrated_grown (h : Grown repo repo') (hold : repo.graph.Contains oldTip)
    (hknown : (repo.isAncestor laneTip oldTip).isSome) :
    LooksIntegrated repo' wave laneId oldTip laneTip ↔
      LooksIntegrated repo wave laneId oldTip laneTip := by
  obtain ⟨v, hv⟩ := Option.isSome_iff_exists.mp hknown
  have htree : repo'.treeOf oldTip = repo.treeOf oldTip := by
    unfold Repo.treeOf
    rw [h.find?_eq hold]
  have hsubject : repo'.subjectOf oldTip = repo.subjectOf oldTip := by
    unfold Repo.subjectOf
    rw [h.find?_eq hold]
  constructor <;> intro hl
  · refine ⟨?_, ?_, hsubject ▸ hl.subject⟩
    · rw [hv, ← h.isAncestor hv]
      exact hl.apart
    · rw [← h.mergeTree, ← htree]
      exact hl.tree
  · refine ⟨h.isAncestor hl.apart, ?_, hsubject.trans hl.subject⟩
    rw [h.mergeTree, htree]
    exact hl.tree

theorem Integrated.forward (h : Integrated repo wave laneId oldTip laneTip t)
    (hold : repo.graph.Contains oldTip) (hknown : (repo.isAncestor laneTip oldTip).isSome)
    (hf : Forward (waveBranch wave) repo repo') :
    Integrated repo' wave laneId oldTip laneTip t := by
  obtain ⟨v, hv⟩ := Option.isSome_iff_exists.mp h.known
  refine ⟨(h.toCertified.forward hf).1, ?_, ?_⟩
  · rw [hf.isAncestorOrEqual h.recorded]
    exact h.ahead
  · rw [looksIntegrated_grown hf.toGrown hold hknown, ← h.lane, hv, hf.isAncestor hv]

theorem Integrated.contained (hon : OnBranch repo wave oldTip)
    (h : repo.isAncestor laneTip oldTip = some true) :
    Integrated repo wave laneId oldTip laneTip oldTip := by
  refine ⟨⟨hon, by rw [h]; rfl⟩, Dag.isAncestorOrEqual_refl _ _, fun _ hl => ?_, fun _ => h⟩
  have hapart := hl.apart
  rw [h] at hapart
  simp at hapart

theorem Integrated.mistaken (hon : OnBranch repo wave oldTip)
    (h : LooksIntegrated repo wave laneId oldTip laneTip) :
    Integrated repo wave laneId oldTip laneTip oldTip := by
  refine ⟨⟨hon, by rw [h.apart]; rfl⟩, Dag.isAncestorOrEqual_refl _ _, fun hl => ?_,
    fun hn => absurd h hn⟩
  rw [h.apart] at hl
  simp at hl

theorem commitTree_merge {oid tree message : String} (hold : repo.graph.Contains oldTip)
    (h : repo.commitTree oid tree [oldTip, laneTip] message = some repo') :
    repo'.graph.Contains oid ∧ repo'.graph.isAncestorOrEqual oldTip oid = true ∧
      repo'.isAncestor laneTip oid = some true := by
  have hgrown := Grown.of_commitTree h
  obtain ⟨ps, hps, hnode, -⟩ := Repo.commitTree_eq_some h
  have hoid : repo'.graph.Contains oid := List.mem_map_of_mem (f := Node.id) hnode
  simp only [List.mapM_cons, List.mapM_nil, Repo.peelCommit_of_contains hold] at hps
  cases hl : repo.peelCommit laneTip with
  | none => simp [hl] at hps
  | some l =>
    simp only [hl, Option.pure_def, Option.bind_eq_bind, Option.bind_some, Option.some.injEq] at hps
    subst hps
    refine ⟨hoid, Dag.isAncestorOrEqual_of_parent hnode List.mem_cons_self, ?_⟩
    have hparent : repo'.graph.isAncestorOrEqual l oid = true :=
      Dag.isAncestorOrEqual_of_parent hnode (List.mem_cons_of_mem _ List.mem_cons_self)
    unfold Repo.isAncestor
    rw [hgrown.peel laneTip l hl, Repo.peelCommit_of_contains hoid]
    simp only [hparent]

end

variable {ι C : Type} [DecidableEq ι]

/-- What `integrate` needs of a conduct: others only move the repository forward, its own git
commands are allowed, and tips that satisfy `J` are only replaced by such tips. What happens over
the whole call is within `M`. -/
structure Integrating (act : Action SupervisorOp SupervisorOp.Answer (SupervisorWorld ι) C)
    (K : Conduct SupervisorOp SupervisorOp.Answer (SupervisorWorld ι)) (i : ι) (branch : String)
    (M : SupervisorWorld ι → SupervisorWorld ι → Prop) (J : String → Prop) : Prop where
  did : ∀ (op : SupervisorOp) c a w w', act op c w = some (a, w') → op = .readRepo ∨
    (∃ tree parents message, op = .commitTree tree parents message) ∨
    (∃ ref new old, op = .updateRef ref new old) → op.Did i a w w'
  forward : ∀ w w', K.rely w w' → Forward branch w.repo w'.repo
  tips : ∀ w w', K.rely w w' → (∀ tip, w.repo.refTip branch = some tip → J tip) →
    ∀ tip, w'.repo.refTip branch = some tip → J tip
  own : ∀ (op : SupervisorOp) a w repo, K.inv w → Forward branch w.repo repo →
    K.inv { w with repo := repo } ∧ K.guar op a w { w with repo := repo } ∧
      M w { w with repo := repo }
  within : ∀ w w', K.rely w w' → M w w'
  trans : ∀ w₁ w₂ w₃, M w₁ w₂ → M w₂ w₃ → M w₁ w₃

namespace Integrating

variable {α : Type} {act : Action SupervisorOp SupervisorOp.Answer (SupervisorWorld ι) C}
  {K : Conduct SupervisorOp SupervisorOp.Answer (SupervisorWorld ι)} {i : ι} {branch : String}
  {M : SupervisorWorld ι → SupervisorWorld ι → Prop} {J : String → Prop}
  {post : Except Failure α → SupervisorWorld ι → Prop} {w : SupervisorWorld ι}

theorem readRepo (hI : Integrating act K i branch M J) {next : Repo → SupervisorM α}
    (h : ∀ w₁, K.rely w w₁ → K.inv w₁ → Safe act K post (next w₁.repo) w₁) :
    Safe act K post (.call .readRepo next) w := by
  refine Safe.call fun w₁ hr hi c a w₂ ha => ?_
  obtain ⟨rfl, rfl⟩ := hI.did _ _ _ _ _ ha (.inl rfl)
  obtain ⟨hi', hg, -⟩ := hI.own .readRepo w₂.repo w₂ w₂.repo hi (Forward.refl _)
  exact ⟨hi', hg, h w₂ hr hi⟩

theorem commitTree (hI : Integrating act K i branch M J) {tree message : String}
    {parents : List String} {next : Option String → SupervisorM α}
    (h : ∀ w₁, K.rely w w₁ → K.inv w₁ → Safe act K post (next none) w₁)
    (h' : ∀ w₁ w₂ oid, K.rely w w₁ → w₁.repo.commitTree oid tree parents message = some w₂.repo →
      M w₁ w₂ → K.inv w₂ → Safe act K post (next (some oid)) w₂) :
    Safe act K post (.call (.commitTree tree parents message) next) w := by
  refine Safe.call fun w₁ hr hi c a w₂ ha => ?_
  rcases hI.did _ _ _ _ _ ha (.inr (.inl ⟨_, _, _, rfl⟩)) with ⟨rfl, rfl⟩ |
    ⟨oid, repo, rfl, hc, rfl⟩
  · obtain ⟨hi', hg, -⟩ := hI.own (.commitTree tree parents message) none w₂ w₂.repo hi
      (Forward.refl _)
    exact ⟨hi', hg, h w₂ hr hi⟩
  · obtain ⟨hi', hg, hm⟩ := hI.own (.commitTree tree parents message) (some oid) w₁ repo hi
      (Forward.of_commitTree hc)
    exact ⟨hi', hg, h' w₁ _ oid hr hc hm hi'⟩

theorem updateRef (hI : Integrating act K i branch M J) {new : String} {old : Option String}
    {next : Bool → SupervisorM α}
    (hahead : ∀ w₁ tip, K.rely w w₁ → old = some tip →
      w₁.repo.graph.isAncestorOrEqual tip new = true)
    (h : ∀ w₁, K.rely w w₁ → K.inv w₁ → Safe act K post (next false) w₁)
    (h' : ∀ w₁ w₂, K.rely w w₁ → w₂.repo.refTip branch = some new →
      Forward branch w₁.repo w₂.repo → M w₁ w₂ → K.inv w₂ → Safe act K post (next true) w₂) :
    Safe act K post (.call (.updateRef branch new old) next) w := by
  refine Safe.call fun w₁ hr hi c a w₂ ha => ?_
  rcases hI.did _ _ _ _ _ ha (.inr (.inr ⟨_, _, _, rfl⟩)) with ⟨rfl, rfl⟩ |
    ⟨repo, rfl, hu, rfl⟩
  · obtain ⟨hi', hg, -⟩ := hI.own (.updateRef branch new old) false w₂ w₂.repo hi (Forward.refl _)
    exact ⟨hi', hg, h w₂ hr hi⟩
  · obtain ⟨hc, hold, rfl⟩ := Repo.updateRef_eq_some hu
    have hf : Forward branch w₁.repo (w₁.repo.setRef branch new hc) :=
      Forward.of_setRef hc fun _ tip htip => hahead w₁ tip hr (hold.symm.trans htip)
    obtain ⟨hi', hg, hm⟩ := hI.own (.updateRef branch new old) true w₁ _ hi hf
    exact ⟨hi', hg, h' w₁ _ hr (Repo.refTip_setRef_self _ _ hc) hf hm hi'⟩

end Integrating

section

variable {act : Action SupervisorOp SupervisorOp.Answer (SupervisorWorld ι) C}
  {K : Conduct SupervisorOp SupervisorOp.Answer (SupervisorWorld ι)} {i : ι} {wave : String}
  {M : SupervisorWorld ι → SupervisorWorld ι → Prop} {J : String → Prop} {w : SupervisorWorld ι}
  {laneId : LaneId} {base laneTip oldTip : String}

/-- After `ensureWaveRef` the wave branch is no symbolic reference, and its tip satisfies `J`. -/
def WaveRefReady (wave : String) (J : String → Prop) (o : Except Failure Unit)
    (w : SupervisorWorld ι) : Prop :=
  o = .ok () → w.repo.isSymbolic (waveBranch wave) = false ∧
    ∀ tip, w.repo.refTip (waveBranch wave) = some tip → J tip

theorem ensureWaveRef_safe (hI : Integrating act K i (waveBranch wave) M J) (hbase : J base)
    (hJ : ∀ tip, w.repo.refTip (waveBranch wave) = some tip → J tip) :
    Safe act K (fun o w' => M w w' ∧ WaveRefReady wave J o w')
      (ensureWaveRef (waveBranch wave) base) w := by
  unfold ensureWaveRef
  simp only [Prog.perform_bind]
  refine hI.readRepo fun w₁ hr₁ _ => ?_
  have hm₁ := hI.within _ _ hr₁
  split_ifs with hsym
  · exact Safe.raise fun w' hr _ => ⟨hI.trans _ _ _ hm₁ (hI.within _ _ hr), fun h => by simp at h⟩
  have hdirect : ∀ {w' : SupervisorWorld ι}, Forward (waveBranch wave) w₁.repo w'.repo →
      w'.repo.isSymbolic (waveBranch wave) = false := fun hf =>
    (hf.isSymbolic _).trans (by simpa using hsym)
  have hdone : ∀ {w₂ : SupervisorWorld ι}, M w w₂ → Forward (waveBranch wave) w₁.repo w₂.repo →
      (∀ tip, w₂.repo.refTip (waveBranch wave) = some tip → J tip) →
      Safe act K (fun o w' => M w w' ∧ WaveRefReady wave J o w') (.ret ()) w₂ :=
    fun hm hf hJ => Safe.ret fun w' hr _ => ⟨hI.trans _ _ _ hm (hI.within _ _ hr),
      fun _ => ⟨hdirect (hf.trans (hI.forward _ _ hr)), hI.tips _ _ hr hJ⟩⟩
  refine hI.readRepo fun w₂ hr₂ _ => ?_
  have hm₂ := hI.trans _ _ _ hm₁ (hI.within _ _ hr₂)
  have hf₂ := hI.forward _ _ hr₂
  have hJ₂ := hI.tips _ _ hr₂ (hI.tips _ _ hr₁ hJ)
  split
  · exact hdone hm₂ hf₂ hJ₂
  · refine hI.updateRef (fun _ _ _ h => by simp at h) (fun w₃ hr₃ _ => ?_)
      fun w₃ w₄ hr₃ htip hf₄ hm₄ _ => ?_
    · simp only [Bool.false_eq_true, if_false]
      refine hI.readRepo fun w₄ hr₄ _ => ?_
      have hm₄ := hI.trans _ _ _ hm₂ (hI.within _ _ (K.rely_trans hr₃ hr₄))
      split
      · exact hdone hm₄ (hf₂.trans (hI.forward _ _ (K.rely_trans hr₃ hr₄)))
          (hI.tips _ _ (K.rely_trans hr₃ hr₄) hJ₂)
      · exact Safe.raise fun w' hr _ => ⟨hI.trans _ _ _ hm₄ (hI.within _ _ hr),
          fun h => by simp at h⟩
    · refine hdone (hI.trans _ _ _ (hI.trans _ _ _ hm₂ (hI.within _ _ hr₃)) hm₄)
        ((hf₂.trans (hI.forward _ _ hr₃)).trans hf₄) fun tip ht => ?_
      obtain rfl := Option.some.inj (htip.symm.trans ht)
      exact hbase

/-- What a call of `integrate` leaves behind, if it has read the wave tip `oldTip`. -/
def IntegrateOutcome (wave : String) (laneId : LaneId) (laneTip : String) (J : String → Prop)
    (o : Except Failure String) (w : SupervisorWorld ι) : Prop :=
  ∀ t, o = .ok t → ∃ oldTip, J oldTip ∧ w.repo.graph.Contains oldTip ∧
    (w.repo.isAncestor laneTip oldTip).isSome ∧
    Integrated w.repo wave laneId oldTip laneTip t

variable {w₀ : SupervisorWorld ι}

section

variable (hI : Integrating act K i (waveBranch wave) M J)

include hI

theorem integrated_ret {t : String} (hm : M w₀ w) (hJ : J oldTip)
    (hold : w.repo.graph.Contains oldTip) (hknown : (w.repo.isAncestor laneTip oldTip).isSome)
    (h : Integrated w.repo wave laneId oldTip laneTip t) :
    Safe act K (fun o w' => M w₀ w' ∧ IntegrateOutcome wave laneId laneTip J o w') (.ret t) w := by
  refine Safe.ret fun w' hr _ => ⟨hI.trans _ _ _ hm (hI.within _ _ hr), fun t' ht => ?_⟩
  obtain rfl := Except.ok.inj ht
  have hf := hI.forward _ _ hr
  obtain ⟨v, hv⟩ := Option.isSome_iff_exists.mp hknown
  exact ⟨oldTip, hJ, hf.graph.contains hold, by rw [hf.isAncestor hv]; rfl,
    h.forward hold hknown hf⟩

theorem integrated_raise {x : Failure} (hm : M w₀ w) :
    Safe act K (fun o w' => M w₀ w' ∧ IntegrateOutcome wave laneId laneTip J o w') (.raise x) w :=
  Safe.raise fun _ hr _ => ⟨hI.trans _ _ _ hm (hI.within _ _ hr), fun _ h => by simp at h⟩

/-- The merge of a lane that the wave tip does not have. -/
theorem mergeLane_safe (hm : M w₀ w) (hJ : J oldTip) (hon : OnBranch w.repo wave oldTip)
    (hapart : w.repo.isAncestor laneTip oldTip = some false) :
    Safe act K (fun o w' => M w₀ w' ∧ IntegrateOutcome wave laneId laneTip J o w')
      (mergeLane wave laneId oldTip laneTip) w := by
  unfold mergeLane
  simp only [Prog.perform_bind]
  refine hI.readRepo fun w₁ hr₁ _ => ?_
  have hm₁ := hI.trans _ _ _ hm (hI.within _ _ hr₁)
  split
  · exact integrated_raise hI hm₁
  · exact integrated_raise hI hm₁
  rename_i tree hmerge
  split_ifs with hfull
  · exact integrated_raise hI hm₁
  refine hI.readRepo fun w₂ hr₂ _ => ?_
  refine hI.readRepo fun w₃ hr₃ _ => ?_
  have hf₂ := hI.forward _ _ (K.rely_trans hr₁ hr₂)
  have hf₃ := hI.forward _ _ hr₃
  have hon₂ := hon.forward hf₂
  have hon₃ := hon₂.forward hf₃
  have hm₃ := hI.trans _ _ _ hm₁ (hI.within _ _ (K.rely_trans hr₂ hr₃))
  have hapart₃ := (hf₂.trans hf₃).isAncestor hapart
  have hknown₃ : (w₃.repo.isAncestor laneTip oldTip).isSome := by rw [hapart₃]; rfl
  have htree : w₃.repo.treeOf oldTip = w₂.repo.treeOf oldTip := by
    unfold Repo.treeOf
    rw [hf₃.find?_eq hon₂.recorded]
  have hmerge₃ : w₃.repo.mergeTree oldTip laneTip = .clean tree := by
    rw [hf₃.mergeTree, (hI.forward _ _ hr₂).mergeTree]
    exact hmerge
  have hlooks : LooksIntegrated w₃.repo wave laneId oldTip laneTip ↔
      w₂.repo.treeOf oldTip = some tree ∧
        w₃.repo.subjectOf oldTip = some (integrateMessage wave laneId) := by
    constructor
    · rintro ⟨-, ⟨tree', hclean, -, ht⟩, hs⟩
      rw [hmerge₃] at hclean
      obtain rfl := MergeTree.clean.inj hclean
      exact ⟨htree.symm.trans ht, hs⟩
    · rintro ⟨ht, hs⟩
      exact ⟨hapart₃, ⟨tree, hmerge₃, by simpa using hfull, htree.trans ht⟩, hs⟩
  by_cases hsame : w₂.repo.treeOf oldTip = some tree ∧
      w₃.repo.subjectOf oldTip = some (integrateMessage wave laneId)
  · rw [if_pos hsame]
    exact integrated_ret hI hm₃ hJ hon₃.recorded hknown₃ (.mistaken hon₃ (hlooks.mpr hsame))
  · rw [if_neg hsame]
    refine hI.commitTree (fun w₄ hr₄ _ => ?_) fun w₄ w₅ oid hr₄ hcommit hm₅ _ => ?_
    · exact integrated_raise hI (hI.trans _ _ _ hm₃ (hI.within _ _ hr₄))
    have hf₄ := hI.forward _ _ hr₄
    have hold₄ : w₄.repo.graph.Contains oldTip := hf₄.graph.contains hon₃.recorded
    obtain ⟨hoid, hahead, hlane⟩ := commitTree_merge hold₄ hcommit
    have hf₅ := hf₄.trans (Forward.of_commitTree hcommit)
    have hm₅' := hI.trans _ _ _ (hI.trans _ _ _ hm₃ (hI.within _ _ hr₄)) hm₅
    refine hI.updateRef (fun w₆ tip hr₆ ht => ?_) (fun w₆ hr₆ _ => ?_)
      fun w₆ w₇ hr₆ htip hf₇ hm₇ _ => ?_
    · obtain rfl := Option.some.inj ht
      rw [(hI.forward _ _ hr₆).isAncestorOrEqual hoid]
      exact hahead
    · exact integrated_raise hI (hI.trans _ _ _ hm₅' (hI.within _ _ hr₆))
    · -- the branch now has the merge commit, whose parents are the wave tip and the lane
      have hf₆ := hI.forward _ _ hr₆
      have hf := hf₆.trans hf₇
      have hnew : ¬ LooksIntegrated w₇.repo wave laneId oldTip laneTip := by
        rw [looksIntegrated_grown (hf₅.trans hf).toGrown hon₃.recorded hknown₃, hlooks]
        exact hsame
      have hlane' := hf.isAncestor hlane
      refine integrated_ret hI (hI.trans _ _ _ (hI.trans _ _ _ hm₅' (hI.within _ _ hr₆)) hm₇) hJ
        ((hf₅.trans hf).graph.contains hon₃.recorded)
        (by rw [(hf₅.trans hf).isAncestor hapart₃]; rfl)
        ⟨⟨⟨?_, hf.graph.contains hoid, oid, htip, Dag.isAncestorOrEqual_refl _ _⟩,
          by rw [hlane']; rfl⟩, ?_, fun _ => hnew, fun _ => hlane'⟩
      · exact ((hf₅.trans hf).isSymbolic _).trans hon₃.direct
      · rw [hf.isAncestorOrEqual hoid]
        exact hahead

/-- What `integrate` returns, from a tip that satisfies `J`. -/
theorem integrate_safe (hi : K.inv w) (hbase : J base)
    (hJ : ∀ tip, w.repo.refTip (waveBranch wave) = some tip → J tip) :
    Safe act K (fun o w' => M w w' ∧ IntegrateOutcome wave laneId laneTip J o w')
      (integrate wave base laneId laneTip) w := by
  unfold integrate
  refine Safe.bind (fun _ w₁ _ h => ?_) (fun x w' _ h => ⟨h.1, fun _ h => by simp at h⟩) hi
    (ensureWaveRef_safe hI hbase hJ)
  obtain ⟨hm₁, h⟩ := h
  obtain ⟨hdirect, hJ₁⟩ := h rfl
  simp only [Prog.perform_bind]
  refine hI.readRepo fun w₂ hr₂ _ => ?_
  have hm₂ := hI.trans _ _ _ hm₁ (hI.within _ _ hr₂)
  split
  · exact integrated_raise hI hm₂
  rename_i tip htip
  have hJ₂ := hI.tips _ _ hr₂ hJ₁ tip htip
  have hon₂ : OnBranch w₂.repo wave tip :=
    ⟨((hI.forward _ _ hr₂).isSymbolic _).trans hdirect, Repo.contains_refTip htip, tip, htip,
      Dag.isAncestorOrEqual_refl _ _⟩
  refine hI.readRepo fun w₃ hr₃ _ => ?_
  have hm₃ := hI.trans _ _ _ hm₂ (hI.within _ _ hr₃)
  split
  · exact integrated_raise hI hm₃
  · exact integrated_raise hI hm₃
  refine hI.readRepo fun w₄ hr₄ _ => ?_
  have hm₄ := hI.trans _ _ _ hm₃ (hI.within _ _ hr₄)
  have hon₄ := hon₂.forward (hI.forward _ _ (K.rely_trans hr₃ hr₄))
  split
  · rename_i hlane
    exact integrated_ret hI hm₄ hJ₂ hon₄.recorded (by rw [hlane]; rfl) (.contained hon₄ hlane)
  · exact integrated_raise hI hm₄
  · rename_i hlane
    exact mergeLane_safe hI hm₄ hJ₂ hon₄ hlane

end

end

end Workbay.Wave
