import Workbay.Git.Proofs.RepoProofs
import Workbay.Landing.Carrier

/-!
# Proofs: the search for the carrier is exact

Along a first-parent chain the commits that contain a given one come first. The oldest of them is the
carrier, or the child of the commit itself.
-/

namespace Workbay.Git

open Relation

variable {ι π : Type} [DecidableEq ι]

theorem firstParentsIn_sublist (ns : List (Node ι π)) (a : ι) :
    (Dag.firstParentsIn ns a).Sublist (ids ns) := by
  induction ns generalizing a with
  | nil => exact List.Sublist.refl _
  | cons n ns ih =>
    rw [Dag.firstParentsIn]
    split
    · rename_i heq
      rw [← heq]
      refine List.Sublist.cons_cons _ ?_
      split
      · exact ih _
      · exact List.nil_sublist _
    · exact (ih a).cons _

theorem head?_firstParentsIn {ns : List (Node ι π)} {a : ι} (h : a ∈ ids ns) :
    (Dag.firstParentsIn ns a).head? = some a := by
  induction ns with
  | nil => cases h
  | cons n ns ih =>
    rw [Dag.firstParentsIn]
    split
    · rfl
    · rename_i hne
      refine ih ?_
      rcases List.mem_cons.mp h with rfl | hin
      · exact absurd rfl hne
      · exact hin

theorem mem_firstParentsIn {ns : List (Node ι π)} {a b : ι} (h : b ∈ Dag.firstParentsIn ns a) :
    AncestorIn ns b a := by
  induction ns generalizing a with
  | nil => cases h
  | cons n ns ih =>
    rw [Dag.firstParentsIn] at h
    split at h
    · rename_i heq
      rcases List.mem_cons.mp h with rfl | hin
      · exact ReflTransGen.refl
      · split at hin
        · rename_i p ps hparents
          exact (ih hin).cons.tail
            ⟨n, List.mem_cons_self, heq, by rw [hparents]; exact List.mem_cons_self⟩
        · cases hin
    · exact (ih h).cons

theorem firstParentsIn_next {ns : List (Node ι π)} (ho : Ordered ns) {a x : ι}
    {later earlier : List ι} (h : Dag.firstParentsIn ns a = later ++ x :: earlier) :
    ∃ n ∈ ns, n.id = x ∧ n.parents.head? = earlier.head? := by
  induction ns generalizing a later with
  | nil => cases later <;> cases h
  | cons n ns ih =>
    rw [Dag.firstParentsIn] at h
    split at h
    · rename_i heq
      cases later with
      | nil =>
        obtain ⟨rfl, rfl⟩ := List.cons.inj h
        refine ⟨n, List.mem_cons_self, heq, ?_⟩
        split
        · rename_i p ps hparents
          rw [hparents, head?_firstParentsIn (ho.2.1 p (by rw [hparents]; exact List.mem_cons_self))]
          rfl
        · rename_i hparents
          rw [hparents]
      | cons y later =>
        obtain ⟨-, h⟩ := List.cons.inj h
        split at h
        · obtain ⟨k, hk, hid, hhead⟩ := ih ho.2.2 h
          exact ⟨k, List.mem_cons_of_mem _ hk, hid, hhead⟩
        · cases later <;> cases h
    · obtain ⟨k, hk, hid, hhead⟩ := ih ho.2.2 h
      exact ⟨k, List.mem_cons_of_mem _ hk, hid, hhead⟩

theorem firstParentsIn_pairwise (ns : List (Node ι π)) (a : ι) :
    (Dag.firstParentsIn ns a).Pairwise fun x y => AncestorIn ns y x := by
  induction ns generalizing a with
  | nil => exact List.Pairwise.nil
  | cons n ns ih =>
    have hkeep : ∀ b, (Dag.firstParentsIn ns b).Pairwise fun x y => AncestorIn (n :: ns) y x :=
      fun b => (ih b).imp fun h => h.cons
    have hself := @mem_firstParentsIn ι π _ (n :: ns) a
    rw [Dag.firstParentsIn] at hself ⊢
    split at hself <;> rename_i heq
    · rw [if_pos heq]
      refine List.pairwise_cons.mpr ⟨fun b hb => hself (List.mem_cons_of_mem _ hb), ?_⟩
      split
      · exact hkeep _
      · exact List.Pairwise.nil
    · rw [if_neg heq]
      exact hkeep a

theorem firstParentsIn_suffix {ns : List (Node ι π)} (ho : Ordered ns) {a b : ι}
    (h : b ∈ Dag.firstParentsIn ns a) :
    Dag.firstParentsIn ns b <:+ Dag.firstParentsIn ns a := by
  induction ns generalizing a with
  | nil => cases h
  | cons n ns ih =>
    by_cases hb : b = a
    · subst hb
      exact List.suffix_rfl
    -- the first node is not `b`, which the rest of the chain has
    have hskip : ∀ {c}, b ∈ Dag.firstParentsIn ns c →
        Dag.firstParentsIn (n :: ns) b <:+ Dag.firstParentsIn ns c := by
      intro c hc
      have hne : n.id ≠ b := fun heq =>
        ho.1 (heq ▸ (firstParentsIn_sublist ns c).subset hc)
      rw [Dag.firstParentsIn, if_neg hne]
      exact ih ho.2.2 hc
    rw [Dag.firstParentsIn.eq_2 a n ns] at h ⊢
    split at h <;> rename_i heq
    · rw [if_pos heq]
      have hrest := (List.mem_cons.mp h).resolve_left hb
      refine List.IsSuffix.trans ?_ (List.suffix_cons _ _)
      split at hrest
      · exact hskip hrest
      · cases hrest
    · rw [if_neg heq]
      exact hskip h

end Workbay.Git

namespace Workbay.Landing

open Relation Git List

variable {π : Type}

/-- The answer of the search, for a commit `c` and the tip `m` of the main branch. -/
structure CarrierExact (g : Dag String π) (c m : String) (result : CarrierResult) : Prop where
  resolved : result.commit = c ∧ result.mainTip = some m ∧ result.error = none
  contained : result.contained = true ↔ AncestorIn g.nodes c m
  absent : result.contained = false → result.carrier = none ∧ result.lineage = none
  /-- The carrier contains the commit, and nothing before it on the chain does. -/
  carrier : result.contained = true → ∃ k later earlier, result.carrier = some k ∧
    Dag.firstParentsIn g.nodes m = later ++ k :: earlier ∧ AncestorIn g.nodes c k ∧
    ∀ x ∈ earlier, ¬ AncestorIn g.nodes c x
  lineage : result.contained = true →
    (result.lineage = some .firstParent ↔ c ∈ Dag.firstParentsIn g.nodes m) ∧
    (result.lineage = some .mergeCarried ↔ c ∉ Dag.firstParentsIn g.nodes m)

section

variable {g : Dag String π} {c m : String}

theorem eq_of_ancestors {a b : String} (h : AncestorIn g.nodes a b) (h' : AncestorIn g.nodes b a) :
    a = b := by
  rcases ReflTransGen.cases_head h with rfl | ⟨d, had, hdb⟩
  · rfl
  · exact absurd rfl (acyclic g.ordered (TransGen.head' had (hdb.trans h')))

theorem chain_split (hm : AncestorIn g.nodes c m) (hcontains : g.Contains m) :
    ∃ k later earlier, Dag.firstParentsIn g.nodes m = later ++ k :: earlier ∧
      (∀ x ∈ later ++ [k], AncestorIn g.nodes c x) ∧ ∀ x ∈ earlier, ¬ AncestorIn g.nodes c x := by
  have hpairwise := firstParentsIn_pairwise g.nodes m
  have hhead := head?_firstParentsIn hcontains
  generalize Dag.firstParentsIn g.nodes m = chain at hpairwise hhead
  induction chain generalizing m with
  | nil => cases hhead
  | cons y chain ih =>
    obtain rfl := Option.some.inj hhead
    obtain ⟨hfirst, hrest⟩ := pairwise_cons.mp hpairwise
    cases chain with
    | nil =>
      exact ⟨y, [], [], rfl, by simpa using hm, fun x hx => by cases hx⟩
    | cons z chain =>
      by_cases hz : AncestorIn g.nodes c z
      · have hzContains : g.Contains z := Dag.contains_of_isAncestorOrEqual
          ((g.isAncestorOrEqual_iff z y).mpr (hfirst z mem_cons_self)) hcontains
        obtain ⟨k, later, earlier, heq, hin, hout⟩ := ih hz hzContains hrest rfl
        refine ⟨k, y :: later, earlier, by rw [heq]; rfl, fun x hx => ?_, hout⟩
        rcases mem_cons.mp hx with rfl | hx
        · exact hm
        · exact hin x hx
      · refine ⟨y, [], z :: chain, rfl, by simpa using hm, fun x hx hanc => ?_⟩
        rcases mem_cons.mp hx with rfl | hx
        · exact hz hanc
        · exact hz (hanc.trans ((pairwise_cons.mp hrest).1 x hx))

theorem candidates_eq {k : String} {later earlier : List String} (hne : c ≠ m)
    (hchain : Dag.firstParentsIn g.nodes m = later ++ k :: earlier)
    (hin : ∀ x ∈ later ++ [k], AncestorIn g.nodes c x)
    (hout : ∀ x ∈ earlier, ¬ AncestorIn g.nodes c x) :
    ((g.revListFirstParent (some c) m).filter fun a => a ∈ revListAncestryPath g c m) =
      (later ++ [k]).filter fun a => a ≠ c := by
  have hcandidate : ∀ x ∈ Dag.firstParentsIn g.nodes m,
      ((!(some c).any fun b => g.isAncestorOrEqual x b) = true ∧
        x ∈ revListAncestryPath g c m) ↔ (AncestorIn g.nodes c x ∧ x ≠ c) := by
    intro x hx
    have hxm := mem_firstParentsIn hx
    have hxContains := (firstParentsIn_sublist g.nodes m).subset hx
    unfold revListAncestryPath
    rw [mem_filter]
    simp only [Option.any_some, Bool.and_eq_true, Bool.not_eq_true', ← Bool.not_eq_true,
      Dag.isAncestorOrEqual_iff, hxm, hxContains, true_and]
    constructor
    · rintro ⟨hnot, -, hanc⟩
      refine ⟨hanc, ?_⟩
      rintro rfl
      exact hnot ReflTransGen.refl
    · rintro ⟨hanc, hxc⟩
      have hnot : ¬ AncestorIn g.nodes x c := fun h => hxc (eq_of_ancestors h hanc)
      exact ⟨hnot, hnot, hanc⟩
  have hsplit : later ++ k :: earlier = (later ++ [k]) ++ earlier := by simp
  unfold Dag.revListFirstParent
  rw [filter_filter]
  have hcongr : (Dag.firstParentsIn g.nodes m).filter (fun a =>
      decide (a ∈ revListAncestryPath g c m) &&
        !(some c).any fun b => g.isAncestorOrEqual a b) =
      (Dag.firstParentsIn g.nodes m).filter fun a => g.isAncestorOrEqual c a && decide (a ≠ c) := by
    refine filter_congr fun x hx => ?_
    rw [Bool.eq_iff_iff, Bool.and_eq_true, Bool.and_eq_true, decide_eq_true_eq, decide_eq_true_eq,
      Dag.isAncestorOrEqual_iff, ← hcandidate x hx]
    exact and_comm
  rw [hcongr, hchain, hsplit, filter_append]
  have hnone : (earlier.filter fun a => g.isAncestorOrEqual c a && decide (a ≠ c)) = [] := by
    rw [filter_eq_nil_iff]
    intro x hx hboth
    rw [Bool.and_eq_true, Dag.isAncestorOrEqual_iff] at hboth
    exact hout x hx hboth.1
  rw [hnone, append_nil]
  refine filter_congr fun x hx => ?_
  rw [(g.isAncestorOrEqual_iff c x).mpr (hin x hx), Bool.true_and]

theorem findCarrier_of_ancestor {resolve : String → Option String} {commit mainRef : String}
    (hcommit : resolve commit = some c) (hmain : resolve mainRef = some m) (hne : c ≠ m)
    (hcontains : g.Contains m) (hm : AncestorIn g.nodes c m) :
    CarrierExact g c m (findCarrier g resolve commit mainRef) := by
  obtain ⟨k, later, earlier, hchain, hin, hout⟩ := chain_split hm hcontains
  have hnodup : (Dag.firstParentsIn g.nodes m).Nodup :=
    g.ordered.nodup.sublist (firstParentsIn_sublist g.nodes m)
  have hk : AncestorIn g.nodes c k := hin k (mem_append_right _ (mem_singleton_self _))
  have hcearlier : c ∉ earlier := fun h => hout c h ReflTransGen.refl
  have hpairwise := firstParentsIn_pairwise g.nodes m
  rw [hchain] at hnodup hpairwise
  have hlater : c ∉ later := by
    intro hc
    have hkc := (pairwise_append.mp hpairwise).2.2 c hc k mem_cons_self
    obtain rfl := eq_of_ancestors hk hkc
    exact disjoint_of_nodup_append hnodup hc mem_cons_self
  have hlaterNe : later.filter (fun a => decide (a ≠ c)) = later := by
    rw [filter_eq_self]
    intro x hx
    exact decide_eq_true fun heq => hlater (heq ▸ hx)
  have hmember : c ∈ Dag.firstParentsIn g.nodes m ↔ k = c := by
    rw [hchain]
    constructor
    · intro hc
      rcases mem_append.mp hc with hc | hc
      · exact absurd hc hlater
      · rcases mem_cons.mp hc with rfl | hc
        · rfl
        · exact absurd hc hcearlier
    · rintro rfl
      exact mem_append_right _ mem_cons_self
  have hcandidates := candidates_eq hne hchain hin hout
  rw [filter_append, hlaterNe] at hcandidates
  unfold findCarrier
  simp only [hcommit, hmain, if_neg hne, (g.isAncestorOrEqual_iff c m).mpr hm, Bool.true_eq_false,
    if_false, hcandidates]
  by_cases hkc : k = c
  · -- the commit is on the chain, behind its child
    obtain ⟨front, child, rfl⟩ : ∃ front child, later = front ++ [child] := by
      rcases eq_nil_or_concat later with rfl | ⟨front, child, rfl⟩
      · have hhead := head?_firstParentsIn hcontains
        rw [hchain] at hhead
        exact absurd (hkc.symm.trans (Option.some.inj hhead)) hne
      · exact ⟨front, child, concat_eq_append⟩
    obtain ⟨n, hn, hid, hnext⟩ := @firstParentsIn_next String π _ _ g.ordered m child front
      (k :: earlier) (by rw [hchain]; simp)
    have hfind : firstParent? g child = some c := by
      unfold firstParent?
      rw [← hid, Dag.find?_of_mem hn, Option.bind_some, hnext, hkc]
      rfl
    have hlast : ((front ++ [child]) ++ [k].filter fun a => decide (a ≠ c)).getLast? =
        some child := by
      simp [hkc]
    rw [hlast]
    simp only [hfind, if_true]
    refine ⟨⟨rfl, rfl, rfl⟩, iff_of_true rfl hm, fun h => (by cases h), fun _ => ?_, fun _ => ?_⟩
    · exact ⟨c, front ++ [child], earlier, rfl, hkc ▸ hchain, ReflTransGen.refl, hout⟩
    · rw [hmember]
      exact ⟨iff_of_true rfl hkc, iff_of_false (by simp) (not_not_intro hkc)⟩
  · -- the first parent of the oldest candidate does not contain the commit
    obtain ⟨n, hn, hid, hnext⟩ := firstParentsIn_next g.ordered hchain
    have hlast : (later ++ [k].filter fun a => decide (a ≠ c)).getLast? = some k := by
      simp [hkc]
    obtain ⟨p, hp⟩ : ∃ p, n.parents.head? = some p := by
      rcases ReflTransGen.cases_tail hk with heq | ⟨q, -, n', hn', hid', hq⟩
      · exact absurd heq hkc
      · obtain rfl := g.ordered.eq_of_id hn hn' (hid.trans hid'.symm)
        cases hparents : n.parents with
        | nil =>
          rw [hparents] at hq
          cases hq
        | cons p ps => exact ⟨p, rfl⟩
    have hfind : firstParent? g k = some p := by
      unfold firstParent?
      rw [← hid, Dag.find?_of_mem hn, Option.bind_some, hp]
    have hpc : p ≠ c := by
      rintro rfl
      rw [hp] at hnext
      exact hcearlier (mem_of_mem_head? hnext.symm)
    rw [hlast]
    simp only [hfind, if_neg hpc]
    refine ⟨⟨rfl, rfl, rfl⟩, iff_of_true rfl hm, fun h => (by cases h), fun _ => ?_, fun _ => ?_⟩
    · exact ⟨k, later, earlier, rfl, hchain, hk, hout⟩
    · rw [hmember]
      exact ⟨iff_of_false (by simp) hkc, iff_of_true rfl hkc⟩

end

/-- The search for the carrier is exact, for commits of the graph. -/
theorem findCarrier_exact (g : Dag String π) (resolve : String → Option String)
    (hresolve : ∀ revision commit, resolve revision = some commit → g.Contains commit)
    {commit mainRef c m : String} (hcommit : resolve commit = some c)
    (hmain : resolve mainRef = some m) :
    CarrierExact g c m (findCarrier g resolve commit mainRef) := by
  have hcontains := hresolve mainRef m hmain
  by_cases heq : c = m
  · subst heq
    obtain ⟨earlier, hchain⟩ : ∃ earlier, Dag.firstParentsIn g.nodes c = c :: earlier :=
      head?_eq_some_iff.mp (head?_firstParentsIn hcontains)
    have hin : c ∈ Dag.firstParentsIn g.nodes c := by
      rw [hchain]
      exact mem_cons_self
    unfold findCarrier
    simp only [hcommit, hmain, if_true]
    refine ⟨⟨rfl, rfl, rfl⟩, iff_of_true rfl ReflTransGen.refl, fun h => (by cases h),
      fun _ => ?_, fun _ => ⟨iff_of_true rfl hin, iff_of_false (by simp) (not_not_intro hin)⟩⟩
    refine ⟨c, [], earlier, rfl, hchain, ReflTransGen.refl, fun x hx hanc => ?_⟩
    -- an earlier commit that contains the tip is the tip
    have hpairwise := firstParentsIn_pairwise g.nodes c
    have hnodup := g.ordered.nodup.sublist (firstParentsIn_sublist g.nodes c)
    rw [hchain] at hpairwise hnodup
    obtain rfl := eq_of_ancestors hanc ((pairwise_cons.mp hpairwise).1 x hx)
    exact (nodup_cons.mp hnodup).1 hx
  · by_cases hm : AncestorIn g.nodes c m
    · exact findCarrier_of_ancestor hcommit hmain heq hcontains hm
    · have hfalse : g.isAncestorOrEqual c m = false := by
        rw [← Bool.not_eq_true, Dag.isAncestorOrEqual_iff]
        exact hm
      unfold findCarrier
      simp only [hcommit, hmain, if_neg heq, hfalse, if_true]
      exact ⟨⟨rfl, rfl, rfl⟩, iff_of_false (by simp) hm, fun _ => ⟨rfl, rfl⟩,
        fun h => (by cases h), fun h => (by cases h)⟩

/-- A lane beside the main branch, and the merge that brings it in. -/
def mergedLane : Dag String Unit where
  nodes := [⟨"merge", ["main1", "lane1"], ()⟩, ⟨"lane1", ["base"], ()⟩, ⟨"main1", ["base"], ()⟩,
    ⟨"base", [], ()⟩]
  ordered := by decide

/-- The main branch is at the merge; a commit is its own name. -/
def mergedNames (revision : String) : Option String :=
  if revision = "main" then some "merge"
  else if mergedLane.Contains revision then some revision
  else none

theorem findCarrier_exact_merge :
    CarrierExact mergedLane "lane1" "merge" (findCarrier mergedLane mergedNames "lane1" "main") := by
  refine findCarrier_exact mergedLane mergedNames (fun revision commit h => ?_) rfl rfl
  unfold mergedNames at h
  split at h
  · obtain rfl := Option.some.inj h
    decide
  split at h
  · rename_i hcontains
    obtain rfl := Option.some.inj h
    exact hcontains
  · cases h

/-- The merge carries the lane. -/
example : (findCarrier mergedLane mergedNames "lane1" "main").carrier = some "merge" := by decide

/-! ## The carrier stays -/

section

variable {g : Dag String π} {c m : String} {resolve : String → Option String}
  {commit mainRef : String}

theorem findCarrier_of_split {k : String} {later earlier : List String}
    (hcommit : resolve commit = some c) (hmain : resolve mainRef = some m) (hcontains : g.Contains m)
    (hchain : Dag.firstParentsIn g.nodes m = later ++ k :: earlier)
    (hk : AncestorIn g.nodes c k) (hout : ∀ x ∈ earlier, ¬ AncestorIn g.nodes c x) :
    (findCarrier g resolve commit mainRef).carrier = some k ∧
      (findCarrier g resolve commit mainRef).lineage =
        some (if k = c then .firstParent else .mergeCarried) := by
  have hin : k ∈ Dag.firstParentsIn g.nodes m := by simp [hchain]
  have hkm := mem_firstParentsIn hin
  by_cases hne : c = m
  · subst hne
    obtain rfl := eq_of_ancestors hkm hk
    simp [findCarrier, hcommit, hmain]
  · have hm : AncestorIn g.nodes c m := hk.trans hkm
    have hexact := findCarrier_of_ancestor hcommit hmain hne hcontains hm
    have hcontained := hexact.contained.mpr hm
    obtain ⟨k', later', earlier', hcarrier, hchain', hk', hout'⟩ := hexact.carrier hcontained
    have hpairwise := firstParentsIn_pairwise g.nodes m
    -- a commit of the chain that contains `c` contains the last one that does
    have hlast : ∀ {x later earlier}, Dag.firstParentsIn g.nodes m = later ++ x :: earlier →
        (∀ y ∈ earlier, ¬ AncestorIn g.nodes c y) → ∀ y ∈ Dag.firstParentsIn g.nodes m,
        AncestorIn g.nodes c y → AncestorIn g.nodes x y := by
      intro x later earlier heq hnone y hy hanc
      rw [heq] at hpairwise hy
      rcases mem_append.mp hy with hy | hy
      · exact (pairwise_append.mp hpairwise).2.2 y hy x mem_cons_self
      · rcases mem_cons.mp hy with rfl | hy
        · exact ReflTransGen.refl
        · exact absurd hanc (hnone y hy)
    have hin' : k' ∈ Dag.firstParentsIn g.nodes m := by simp [hchain']
    obtain rfl := eq_of_ancestors (hlast hchain hout k' hin' hk') (hlast hchain' hout' k hin hk)
    refine ⟨hcarrier, ?_⟩
    by_cases hkc : k = c
    · rw [if_pos hkc]
      exact (hexact.lineage hcontained).1.mpr (hkc ▸ hin)
    · rw [if_neg hkc]
      refine (hexact.lineage hcontained).2.mpr fun hc => hkc ?_
      exact eq_of_ancestors (hlast hchain hout c hc ReflTransGen.refl) hk

/-- While the main branch moves on along its first parents, by commits or by merges into it, a commit
that it contains keeps its carrier and its lineage. -/
theorem carrier_stays {resolve' : String → Option String} {n : String}
    (hcommit : resolve commit = some c) (hmain : resolve mainRef = some m)
    (hcommit' : resolve' commit = some c) (hmain' : resolve' mainRef = some n)
    (hcontains : g.Contains n) (hmoved : m ∈ Dag.firstParentsIn g.nodes n)
    (hm : AncestorIn g.nodes c m) :
    (findCarrier g resolve commit mainRef).carrier.isSome ∧
      (findCarrier g resolve' commit mainRef).carrier =
        (findCarrier g resolve commit mainRef).carrier ∧
      (findCarrier g resolve' commit mainRef).lineage =
        (findCarrier g resolve commit mainRef).lineage := by
  have hin : g.Contains m := (firstParentsIn_sublist g.nodes n).subset hmoved
  obtain ⟨k, later, earlier, hchain, hk, hout⟩ := chain_split hm hin
  have hk := hk k (mem_append_right _ mem_cons_self)
  obtain ⟨front, hfront⟩ := firstParentsIn_suffix g.ordered hmoved
  rw [hchain, ← append_assoc] at hfront
  obtain ⟨hcarrier, hlineage⟩ := findCarrier_of_split hcommit hmain hin hchain hk hout
  obtain ⟨hcarrier', hlineage'⟩ :=
    findCarrier_of_split hcommit' hmain' hcontains hfront.symm hk hout
  rw [hcarrier, hcarrier', hlineage, hlineage']
  exact ⟨rfl, rfl, rfl⟩

end

theorem carrier_stays_merge :
    (findCarrier mergedLane mergedNames "base" "main").carrier =
      (findCarrier mergedLane (fun revision => if revision = "main" then some "main1"
        else some revision) "base" "main").carrier := by
  refine (carrier_stays (c := "base") (m := "main1") (g := mergedLane) (by decide) (by decide)
    (by decide) (n := "merge") (by decide) (by decide) (by decide) ?_).2.1
  rw [← Dag.isAncestorOrEqual_iff]
  decide

end Workbay.Landing
