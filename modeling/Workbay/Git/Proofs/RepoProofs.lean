import Mathlib.Data.List.Nodup
import Workbay.Git.Repo

/-!
# Ancestors in an append-only graph

The ancestor test decides the reflexive-transitive closure of the parent relation, and adding
nodes changes nothing about the nodes that were there.
-/

namespace Workbay.Git

open Relation List

variable {ι π : Type}

variable {ns : List (Node ι π)} {a b : ι} {n : Node ι π}

theorem ParentIn.mem_ids (ho : Ordered ns) (h : ParentIn ns a b) : a ∈ ids ns ∧ b ∈ ids ns := by
  obtain ⟨n, hn, rfl, ha⟩ := h
  refine ⟨?_, mem_map_of_mem (f := Node.id) hn⟩
  induction ns with
  | nil => simp at hn
  | cons m ns ih =>
    obtain ⟨_, hp, ho'⟩ := ho
    simp only [ids, map_cons, mem_cons]
    rcases mem_cons.mp hn with rfl | hn'
    · exact .inr (hp a ha)
    · exact .inr (ih ho' hn')

theorem ParentIn.of_cons (h : ParentIn (n :: ns) a b) (hb : b ≠ n.id) : ParentIn ns a b := by
  obtain ⟨m, hm, rfl, ha⟩ := h
  rcases mem_cons.mp hm with rfl | hm'
  · exact absurd rfl hb
  · exact ⟨m, hm', rfl, ha⟩

theorem ParentIn.cons (h : ParentIn ns a b) : ParentIn (n :: ns) a b := by
  obtain ⟨m, hm, hb, ha⟩ := h
  exact ⟨m, mem_cons_of_mem _ hm, hb, ha⟩

theorem AncestorIn.cons (h : AncestorIn ns a b) : AncestorIn (n :: ns) a b :=
  ReflTransGen.mono (fun _ _ hab => ParentIn.cons hab) a b h

theorem AncestorIn.of_cons (ho : Ordered (n :: ns)) (h : AncestorIn (n :: ns) a b) (hb : b ≠ n.id) :
    AncestorIn ns a b := by
  induction h with
  | refl => exact ReflTransGen.refl
  | @tail x y _ hxy ih =>
    have hp := hxy.of_cons hb
    have hx : x ≠ n.id := by
      rintro rfl
      exact ho.1 (hp.mem_ids ho.2.2).1
    exact (ih hx).tail hp

theorem ancestorIn_append_iff {t : List (Node ι π)} (ho : Ordered (t ++ ns)) (hb : b ∈ ids ns) :
    AncestorIn (t ++ ns) a b ↔ AncestorIn ns a b := by
  induction t with
  | nil => exact Iff.rfl
  | cons n t ih =>
    have hmem : b ∈ ids (t ++ ns) := by
      simp only [ids, map_append, mem_append] at hb ⊢
      exact .inr hb
    have hne : b ≠ n.id := by
      rintro rfl
      exact ho.1 hmem
    constructor
    · exact fun hab => (ih ho.2.2).mp (AncestorIn.of_cons ho hab hne)
    · exact fun hab => ((ih ho.2.2).mpr hab).cons

theorem ParentIn.newest (ho : Ordered (n :: ns)) (h : ParentIn (n :: ns) a n.id) :
    a ∈ n.parents := by
  obtain ⟨m, hm, hid, ha⟩ := h
  rcases mem_cons.mp hm with rfl | hm'
  · exact ha
  · exact absurd (hid ▸ mem_map_of_mem (f := Node.id) hm') ho.1

theorem acyclic (ho : Ordered ns) (h : TransGen (ParentIn ns) a b) : a ≠ b := by
  induction ns with
  | nil =>
    obtain ⟨_, _, n, hn, _⟩ := TransGen.tail'_iff.mp h
    simp at hn
  | cons n ns ih =>
    have ha : a ∈ ids ns := by
      obtain ⟨c, ⟨m, hm, _, ham⟩, _⟩ := TransGen.head'_iff.mp h
      rcases mem_cons.mp hm with rfl | hm'
      · exact ho.2.1 a ham
      · exact (ParentIn.mem_ids ho.2.2 ⟨m, hm', rfl, ham⟩).1
    by_cases hb : b = n.id
    · rintro rfl
      exact ho.1 (hb ▸ ha)
    · obtain ⟨p, hap, hpb⟩ := TransGen.tail'_iff.mp h
      have hpb' := hpb.of_cons hb
      have hp : p ≠ n.id := by
        rintro rfl
        exact ho.1 (hpb'.mem_ids ho.2.2).1
      exact ih ho.2.2 (TransGen.tail'_iff.mpr ⟨p, AncestorIn.of_cons ho hap hp, hpb'⟩)

theorem Ordered.nodup (ho : Ordered ns) : (ids ns).Nodup := by
  induction ns with
  | nil => exact nodup_nil
  | cons n ns ih => exact nodup_cons.mpr ⟨ho.1, ih ho.2.2⟩

theorem Ordered.eq_of_id (ho : Ordered ns) {m : Node ι π} (hm : m ∈ ns) (hn : n ∈ ns)
    (h : m.id = n.id) : m = n := inj_on_of_nodup_map ho.nodup hm hn h

section Search

variable [DecidableEq ι]

theorem mem_collect_iff {ns : List (Node ι π)} (ho : Ordered ns) (s : List ι) (a : ι) :
    a ∈ collect ns s ↔ ∃ b ∈ s, AncestorIn ns a b := by
  induction ns generalizing s with
  | nil =>
    simp only [collect]
    constructor
    · exact fun h => ⟨a, h, ReflTransGen.refl⟩
    · rintro ⟨b, hb, hab⟩
      rcases ReflTransGen.cases_tail hab with rfl | ⟨c, _, n, hn, _⟩
      · exact hb
      · simp at hn
  | cons n ns ih =>
    simp only [collect, ih ho.2.2]
    constructor
    · rintro ⟨b, hb, hab⟩
      by_cases hn : n.id ∈ s
      · rw [if_pos hn] at hb
        rcases mem_append.mp hb with hb | hb
        · exact ⟨n.id, hn, (hab.cons).tail ⟨n, mem_cons_self, rfl, hb⟩⟩
        · exact ⟨b, hb, hab.cons⟩
      · rw [if_neg hn] at hb
        exact ⟨b, hb, hab.cons⟩
    · rintro ⟨b, hb, hab⟩
      by_cases hbn : b = n.id
      · subst hbn
        rw [if_pos hb]
        rcases ReflTransGen.cases_tail hab with rfl | ⟨p, hap, hpn⟩
        · exact ⟨_, mem_append_right _ hb, ReflTransGen.refl⟩
        · have hp := ParentIn.newest ho hpn
          have hne : p ≠ n.id := by
            rintro rfl
            exact ho.1 (ho.2.1 _ hp)
          exact ⟨p, mem_append_left _ hp, AncestorIn.of_cons ho hap hne⟩
      · refine ⟨b, ?_, AncestorIn.of_cons ho hab hbn⟩
        split
        · exact mem_append_right _ hb
        · exact hb

namespace Dag

theorem isAncestorOrEqual_iff (g : Dag ι π) (a b : ι) :
    g.isAncestorOrEqual a b = true ↔ AncestorIn g.nodes a b := by
  simp [isAncestorOrEqual, mem_collect_iff g.ordered]

theorem isAncestorOrEqual_refl (g : Dag ι π) (a : ι) : g.isAncestorOrEqual a a = true :=
  (g.isAncestorOrEqual_iff a a).mpr ReflTransGen.refl

variable {g g' : Dag ι π} {a b : ι} {n : Node ι π}

theorem isAncestorOrEqual_trans {c : ι} (h : g.isAncestorOrEqual a b = true)
    (h' : g.isAncestorOrEqual b c = true) : g.isAncestorOrEqual a c = true := by
  rw [isAncestorOrEqual_iff] at *
  exact ReflTransGen.trans h h'

theorem find?_of_mem (hn : n ∈ g.nodes) : g.find? n.id = some n := by
  unfold find?
  cases hf : g.nodes.find? fun m => decide (m.id = n.id) with
  | none =>
    have := find?_eq_none.mp hf n hn
    simp at this
  | some m =>
    have hid : m.id = n.id := by simpa using find?_some hf
    rw [g.ordered.eq_of_id (mem_of_find?_eq_some hf) hn hid]

theorem add?_eq_some (h : g.add? n = some g') :
    g'.nodes = n :: g.nodes ∧ n.id ∉ ids g.nodes ∧ ∀ p ∈ n.parents, p ∈ ids g.nodes := by
  unfold add? at h
  split_ifs at h with hc
  simp only [Option.some.injEq] at h
  exact ⟨by rw [← h], hc⟩

theorem isAncestorOrEqual_of_parent (hn : n ∈ g.nodes) {p : ι} (hp : p ∈ n.parents) :
    g.isAncestorOrEqual p n.id = true :=
  (g.isAncestorOrEqual_iff p n.id).mpr (ReflTransGen.single ⟨n, hn, rfl, hp⟩)

omit [DecidableEq ι] in
theorem Grows.refl (g : Dag ι π) : g.Grows g := suffix_refl _

omit [DecidableEq ι] in
theorem Grows.trans {g₁ g₂ g₃ : Dag ι π} (h : g₁.Grows g₂) (h' : g₂.Grows g₃) : g₁.Grows g₃ :=
  List.IsSuffix.trans h h'

theorem Grows.of_add? (h : g.add? n = some g') : g.Grows g' :=
  ⟨[n], by rw [(add?_eq_some h).1]; rfl⟩

omit [DecidableEq ι] in
theorem Grows.contains (h : g.Grows g') (ha : g.Contains a) : g'.Contains a := by
  obtain ⟨t, ht⟩ := h
  simp only [Contains, ids] at ha ⊢
  rw [← ht, map_append]
  exact mem_append_right _ ha

omit [DecidableEq ι] in
theorem Grows.ancestor_iff (h : g.Grows g') (hb : g.Contains b) :
    AncestorIn g'.nodes a b ↔ AncestorIn g.nodes a b := by
  obtain ⟨t, ht⟩ := h
  have ho := g'.ordered
  rw [← ht] at ho ⊢
  exact ancestorIn_append_iff ho hb

theorem Grows.isAncestorOrEqual_eq (h : g.Grows g') (a : ι) (hb : g.Contains b) :
    g'.isAncestorOrEqual a b = g.isAncestorOrEqual a b := by
  rw [Bool.eq_iff_iff, isAncestorOrEqual_iff, isAncestorOrEqual_iff, h.ancestor_iff hb]

theorem contains_of_isAncestorOrEqual (h : g.isAncestorOrEqual a b = true) (hb : g.Contains b) :
    g.Contains a := by
  rw [isAncestorOrEqual_iff] at h
  rcases ReflTransGen.cases_head h with rfl | ⟨c, hac, _⟩
  · exact hb
  · exact (hac.mem_ids g.ordered).1

end Dag

end Search

end Workbay.Git

/-!
## Repositories that move forward

What the git commands change, and what stays true in a repository whose objects are only added to
and in which one branch never goes back.
-/

namespace Workbay.Git

namespace Repo

variable {r r' : Repo}

theorem peelCommit_of_contains {a : String} (h : r.graph.Contains a) : r.peelCommit a = some a := by
  simp [peelCommit, h]

theorem contains_of_peelCommit {name c : String} (h : r.peelCommit name = some c) :
    r.graph.Contains c := by
  unfold peelCommit at h
  split_ifs at h with hc
  · exact Option.some.inj h ▸ hc
  · cases ht : r.tags.get? name with
    | none => simp [ht] at h
    | some commit =>
      rw [ht] at h
      simp only [Option.ite_none_right_eq_some, Option.some.injEq] at h
      exact h.2 ▸ h.1

theorem isAncestor_of_contains {a b : String} (ha : r.graph.Contains a) (hb : r.graph.Contains b) :
    r.isAncestor a b = some (r.graph.isAncestorOrEqual a b) := by
  simp [isAncestor, peelCommit_of_contains ha, peelCommit_of_contains hb]

theorem isAncestor_eq_some {a b : String} {v : Bool} (h : r.isAncestor a b = some v) :
    ∃ a' b', r.peelCommit a = some a' ∧ r.peelCommit b = some b' ∧
      r.graph.isAncestorOrEqual a' b' = v := by
  unfold isAncestor at h
  split at h
  · exact ⟨_, _, by assumption, by assumption, Option.some.inj h⟩
  · simp at h

theorem contains_refTip {ref tip : String} (h : r.refTip ref = some tip) : r.graph.Contains tip :=
  r.tips ref tip h

theorem refTip_setRef_self (ref new : String) (h : r.graph.Contains new) :
    (r.setRef ref new h).refTip ref = some new := Dict.get?_set_self _ _ _

theorem refTip_setRef_of_ne {ref ref' new : String} (h : r.graph.Contains new) (hne : ref' ≠ ref) :
    (r.setRef ref new h).refTip ref' = r.refTip ref' := Dict.get?_set_of_ne _ _ hne

theorem updateRef_eq_some {ref new : String} {old : Option String}
    (h : r.updateRef ref new old = some r') :
    ∃ hc : r.graph.Contains new, r.refTip ref = old ∧ r' = r.setRef ref new hc := by
  unfold updateRef at h
  split_ifs at h with hcond
  exact ⟨hcond.2, hcond.1, (Option.some.inj h).symm⟩

theorem commitTree_eq_some {oid tree message : String} {parents : List String}
    (h : r.commitTree oid tree parents message = some r') :
    ∃ ps, parents.mapM r.peelCommit = some ps ∧
      ⟨oid, ps, ⟨tree, message⟩⟩ ∈ r'.graph.nodes ∧ r.graph.Grows r'.graph ∧
      (∀ a, r'.graph.Contains a → r.graph.Contains a ∨ r.tags.get? a = none) ∧
      r'.objectIdLength = r.objectIdLength ∧ r'.tags = r.tags ∧ r'.refs = r.refs ∧
      r'.symbolicRefs = r.symbolicRefs ∧ r'.mergeTree = r.mergeTree := by
  unfold commitTree at h
  cases hp : parents.mapM r.peelCommit with
  | none => simp [hp] at h
  | some ps =>
    rw [hp] at h
    simp only at h
    split_ifs at h with hmem hid hnew
    · obtain rfl := Option.some.inj h
      exact ⟨ps, rfl, hmem, Dag.Grows.refl _, fun _ ha => .inl ha, rfl, rfl, rfl, rfl, rfl⟩
    · obtain rfl := Option.some.inj h
      refine ⟨ps, rfl, List.mem_cons_self, ⟨[_], rfl⟩, fun a ha => ?_, rfl, rfl, rfl, rfl, rfl⟩
      rcases List.mem_cons.mp ha with rfl | ha
      · exact .inr hnew.1.2
      · exact .inl ha

end Repo

/-- `r'` has grown out of `r`: what was there is still there. -/
structure Grown (r r' : Repo) : Prop where
  objectIdLength : r'.objectIdLength = r.objectIdLength
  graph : r.graph.Grows r'.graph
  peel : ∀ name c, r.peelCommit name = some c → r'.peelCommit name = some c
  symbolicRefs : r'.symbolicRefs = r.symbolicRefs
  mergeTree : r'.mergeTree = r.mergeTree

namespace Grown

variable {r r' : Repo}

theorem refl (r : Repo) : Grown r r := ⟨rfl, Dag.Grows.refl _, fun _ _ h => h, rfl, rfl⟩

theorem trans {r₁ r₂ r₃ : Repo} (h : Grown r₁ r₂) (h' : Grown r₂ r₃) : Grown r₁ r₃ :=
  ⟨h'.objectIdLength.trans h.objectIdLength, h.graph.trans h'.graph,
    fun name c hc => h'.peel name c (h.peel name c hc), h'.symbolicRefs.trans h.symbolicRefs,
    h'.mergeTree.trans h.mergeTree⟩

theorem isAncestor (h : Grown r r') {a b : String} {v : Bool}
    (hv : r.isAncestor a b = some v) : r'.isAncestor a b = some v := by
  obtain ⟨a', b', ha, hb, hv⟩ := Repo.isAncestor_eq_some hv
  unfold Repo.isAncestor
  rw [h.peel a a' ha, h.peel b b' hb]
  simp only
  rw [h.graph.isAncestorOrEqual_eq a' (Repo.contains_of_peelCommit hb), hv]

theorem isAncestorOrEqual (h : Grown r r') {a b : String} (hb : r.graph.Contains b) :
    r'.graph.isAncestorOrEqual a b = r.graph.isAncestorOrEqual a b :=
  h.graph.isAncestorOrEqual_eq a hb

theorem isSymbolic (h : Grown r r') (ref : String) :
    r'.isSymbolic ref = r.isSymbolic ref := by
  unfold Repo.isSymbolic
  rw [h.symbolicRefs]

theorem find?_eq (h : Grown r r') {a : String} (ha : r.graph.Contains a) :
    r'.graph.find? a = r.graph.find? a := by
  obtain ⟨n, hn, rfl⟩ := List.mem_map.mp ha
  rw [Dag.find?_of_mem hn, Dag.find?_of_mem (h.graph.subset hn)]

theorem of_commitTree {oid tree message : String} {parents : List String}
    (h : r.commitTree oid tree parents message = some r') : Grown r r' := by
  obtain ⟨ps, -, -, hg, hold, hlen, htags, hrefs, hsym, hmerge⟩ := Repo.commitTree_eq_some h
  refine ⟨hlen, hg, fun name c hc => ?_, hsym, hmerge⟩
  unfold Repo.peelCommit at hc ⊢
  by_cases hin : r.graph.Contains name
  · rw [if_pos hin] at hc
    rw [if_pos (hg.contains hin)]
    exact hc
  · rw [if_neg hin] at hc
    cases ht : r.tags.get? name with
    | none => simp [ht] at hc
    | some commit =>
      have hnin : ¬ r'.graph.Contains name := by
        intro hcon
        rcases hold name hcon with h | h
        · exact hin h
        · rw [ht] at h; simp at h
      rw [if_neg hnin, htags, ht]
      rw [ht] at hc
      simp only [Option.ite_none_right_eq_some, Option.some.injEq] at hc ⊢
      exact ⟨hg.contains hc.1, hc.2⟩

theorem of_tag {oid target : String} (hid : ¬ r.graph.Contains oid)
    (hnew : r.tags.get? oid = none) :
    Grown r { r with tags := r.tags.set oid target } := by
  refine ⟨rfl, Dag.Grows.refl _, fun name c hc => ?_, rfl, rfl⟩
  by_cases hne : name = oid
  · subst hne
    simp [Repo.peelCommit, hid, hnew] at hc
  · unfold Repo.peelCommit at hc ⊢
    simp only [Dict.get?_set_of_ne _ _ hne]
    exact hc

end Grown

/-- `r'` has grown out of `r`, and in it the branch is where it was or further on. -/
structure Forward (branch : String) (r r' : Repo) : Prop extends Grown r r' where
  branch : ∀ old, r.refTip branch = some old →
    ∃ new, r'.refTip branch = some new ∧ r'.graph.isAncestorOrEqual old new = true

namespace Forward

variable {branch : String} {r r' : Repo}

theorem of_refTip (h : Grown r r') (hb : r'.refTip branch = r.refTip branch) :
    Forward branch r r' :=
  ⟨h, fun old hold => ⟨old, hb.trans hold, Dag.isAncestorOrEqual_refl _ _⟩⟩

theorem refl (r : Repo) : Forward branch r r := of_refTip (Grown.refl r) rfl

theorem trans {r₁ r₂ r₃ : Repo} (h : Forward branch r₁ r₂) (h' : Forward branch r₂ r₃) :
    Forward branch r₁ r₃ := by
  refine ⟨h.toGrown.trans h'.toGrown, fun old hold => ?_⟩
  obtain ⟨mid, hmid, ha⟩ := h.branch old hold
  obtain ⟨new, hnew, hb⟩ := h'.branch mid hmid
  refine ⟨new, hnew, Dag.isAncestorOrEqual_trans ?_ hb⟩
  rw [h'.isAncestorOrEqual (Repo.contains_refTip hmid)]
  exact ha

theorem of_commitTree {oid tree message : String} {parents : List String}
    (h : r.commitTree oid tree parents message = some r') : Forward branch r r' := by
  refine of_refTip (Grown.of_commitTree h) ?_
  obtain ⟨ps, -, -, -, -, -, -, hrefs, -, -⟩ := Repo.commitTree_eq_some h
  unfold Repo.refTip
  rw [hrefs]

theorem of_setRef {ref new : String} (hc : r.graph.Contains new)
    (hb : ref = branch → ∀ old, r.refTip ref = some old →
      r.graph.isAncestorOrEqual old new = true) : Forward branch r (r.setRef ref new hc) := by
  refine ⟨⟨rfl, Dag.Grows.refl _, fun _ _ h => h, rfl, rfl⟩, fun old hold => ?_⟩
  by_cases href : branch = ref
  · subst href
    exact ⟨new, Repo.refTip_setRef_self branch new hc, hb rfl old hold⟩
  · exact ⟨old, (Repo.refTip_setRef_of_ne hc href).trans hold, Dag.isAncestorOrEqual_refl _ _⟩

theorem of_tag {oid target : String} (hid : ¬ r.graph.Contains oid)
    (hnew : r.tags.get? oid = none) :
    Forward branch r { r with tags := r.tags.set oid target } :=
  of_refTip (Grown.of_tag hid hnew) rfl

end Forward

end Workbay.Git
