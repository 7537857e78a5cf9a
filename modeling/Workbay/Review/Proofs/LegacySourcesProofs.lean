import Workbay.Review.LegacySources

/-!
# Legacy sources collapse consistently

The records fall into classes that agree in everything that is compared. The loop succeeds if and
only if records of different classes share no identity, and then there is one record a class, in the
order of the keys; neither depends on the order of the records.
-/

namespace Workbay.Review

open SourceRecord List

namespace LegacyFacts

theorem same_iff {a b : LegacyFacts} : a.same b = true ↔
    a.dispatchId = b.dispatchId ∧ a.passId = b.passId ∧ a.subjectBranch = b.subjectBranch ∧
      a.taskRef = b.taskRef ∧ a.laneId = b.laneId ∧ a.backend.canonical = b.backend.canonical ∧
      a.model = b.model ∧ a.effort = b.effort ∧ a.outcome.canonical = b.outcome.canonical ∧
      a.sourceHead = b.sourceHead ∧ a.sourceTree = b.sourceTree ∧ a.startedAt = b.startedAt ∧
      a.checkpointTip.canonical = b.checkpointTip.canonical := by
  simp only [same, Bool.and_eq_true, decide_eq_true_eq, Json.pyEq_iff, and_assoc]

theorem same_refl (a : LegacyFacts) : a.same a = true := by simp [same_iff]

theorem same_symm {a b : LegacyFacts} (h : a.same b = true) : b.same a = true := by
  rw [same_iff] at h ⊢
  obtain ⟨h1, h2, h3, h4, h5, h6, h7, h8, h9, h10, h11, h12, h13⟩ := h
  exact ⟨h1.symm, h2.symm, h3.symm, h4.symm, h5.symm, h6.symm, h7.symm, h8.symm, h9.symm,
    h10.symm, h11.symm, h12.symm, h13.symm⟩

theorem same_trans {a b c : LegacyFacts} (h : a.same b = true) (h' : b.same c = true) :
    a.same c = true := by
  rw [same_iff] at h h' ⊢
  obtain ⟨h1, h2, h3, h4, h5, h6, h7, h8, h9, h10, h11, h12, h13⟩ := h
  rw [h1, h2, h3, h4, h5, h6, h7, h8, h9, h10, h11, h12, h13]
  exact h'

end LegacyFacts

namespace SourceRecord

variable {a b c : SourceRecord}

theorem agrees_iff : a.agrees b = true ↔ a.facts.same b.facts = true ∧
    a.producer.dispatchNonce = b.producer.dispatchNonce ∧
    a.producer.provenanceSha256 = b.producer.provenanceSha256 ∧
    a.producer.agentSpecSha256 = b.producer.agentSpecSha256 ∧
    a.producer.agentArgvSha256 = b.producer.agentArgvSha256 := by
  simp only [agrees, Bool.and_eq_true, decide_eq_true_eq, and_assoc]

theorem agrees_refl (a : SourceRecord) : a.agrees a = true :=
  agrees_iff.mpr ⟨a.facts.same_refl, rfl, rfl, rfl, rfl⟩

theorem agrees_symm (h : a.agrees b = true) : b.agrees a = true := by
  obtain ⟨hfacts, hnonce, hprovenance, hspec, hargv⟩ := agrees_iff.mp h
  exact agrees_iff.mpr ⟨LegacyFacts.same_symm hfacts, hnonce.symm, hprovenance.symm, hspec.symm,
    hargv.symm⟩

theorem agrees_trans (h : a.agrees b = true) (h' : b.agrees c = true) : a.agrees c = true := by
  obtain ⟨hfacts, hnonce, hprovenance, hspec, hargv⟩ := agrees_iff.mp h
  obtain ⟨hfacts', hnonce', hprovenance', hspec', hargv'⟩ := agrees_iff.mp h'
  exact agrees_iff.mpr ⟨LegacyFacts.same_trans hfacts hfacts', hnonce.trans hnonce',
    hprovenance.trans hprovenance', hspec.trans hspec', hargv.trans hargv'⟩

theorem agrees_congr (h : a.agrees b = true) : a.agrees c = b.agrees c :=
  Bool.eq_iff_iff.mpr ⟨agrees_trans (agrees_symm h), agrees_trans h⟩

theorem shares_iff : a.shares b = true ↔ a.facts.dispatchId = b.facts.dispatchId ∨
    a.facts.passId = b.facts.passId ∨
    a.producer.dispatchNonce = b.producer.dispatchNonce := by
  simp only [shares, Bool.or_eq_true, decide_eq_true_eq, or_assoc]

theorem shares_comm : a.shares b = b.shares a := by
  rw [Bool.eq_iff_iff, shares_iff, shares_iff]
  simp only [eq_comm]

theorem shares_congr (h : a.agrees b = true) : a.shares c = b.shares c := by
  obtain ⟨hfacts, hnonce, -⟩ := agrees_iff.mp h
  obtain ⟨hdispatch, hpass, -⟩ := LegacyFacts.same_iff.mp hfacts
  rw [Bool.eq_iff_iff, shares_iff, shares_iff, hdispatch, hpass, hnonce]

theorem shares_of_agrees (h : a.agrees b = true) : a.shares b = true := by
  rw [shares_congr h]
  exact shares_iff.mpr (.inl rfl)

theorem key_of_agrees (h : a.agrees b = true) : a.key = b.key := by
  obtain ⟨hfacts, -⟩ := agrees_iff.mp h
  obtain ⟨hdispatch, -, -, -, -, -, -, -, -, -, -, hstarted, -⟩ := LegacyFacts.same_iff.mp hfacts
  rw [key, key, hdispatch, hstarted]

end SourceRecord

theorem collapseInto_cases (record : SourceRecord) (unique : List CollapsedSource) :
    (∃ e, collapseInto record unique = .error e ∧
      ∃ prior ∈ unique, record.shares prior.source = true ∧ record.agrees prior.source = false) ∨
    (collapseInto record unique = .ok none ∧
      ∀ prior ∈ unique, record.shares prior.source = false) ∨
    ∃ before prior after, unique = before ++ prior :: after ∧
      collapseInto record unique =
        .ok (some (before ++ prior.represent record.producer :: after)) ∧
      record.agrees prior.source = true := by
  induction unique with
  | nil => exact .inr (.inl ⟨rfl, fun prior h => absurd h not_mem_nil⟩)
  | cons prior rest ih =>
    rw [collapseInto]
    cases hshares : record.shares prior.source with
    | true =>
      cases hagrees : record.agrees prior.source with
      | true => exact .inr (.inr ⟨[], prior, rest, rfl, rfl, hagrees⟩)
      | false => exact .inl ⟨_, rfl, prior, mem_cons_self, hshares, hagrees⟩
    | false =>
      rcases ih with ⟨e, herror, other, hmem, hother⟩ | ⟨hnone, hnew⟩ |
        ⟨before, found, after, hsplit, hsome, hagrees⟩
      · refine .inl ⟨e, ?_, other, mem_cons_of_mem _ hmem, hother⟩
        rw [herror]
        rfl
      · refine .inr (.inl ⟨?_, fun other hother => ?_⟩)
        · rw [hnone]
          rfl
        · rcases mem_cons.mp hother with rfl | hrest
          · exact hshares
          · exact hnew other hrest
      · refine .inr (.inr ⟨prior :: before, found, after, ?_, ?_, hagrees⟩)
        · rw [hsplit, cons_append]
        · rw [hsome]
          rfl

/-- Some records have collapsed: the unique ones share no identity, and each is the first of its
class, with the producers of the others. -/
structure Collapses (done : List SourceRecord) (unique : List CollapsedSource) : Prop where
  apart : (unique.map CollapsedSource.source).Pairwise fun a b => a.shares b = false
  sublist : (unique.map CollapsedSource.source).Sublist done
  classes : ∀ u ∈ unique, ∃ others : List SourceRecord,
    u.representations = others.map SourceRecord.producer ∧
      (u.source :: others).Perm (done.filter u.source.agrees)
  covers : ∀ r ∈ done, ∃ u ∈ unique, u.source.agrees r = true

namespace Collapses

variable {done : List SourceRecord} {unique : List CollapsedSource} {record : SourceRecord}

theorem nil : Collapses [] [] where
  apart := .nil
  sublist := .slnil
  classes := fun u h => absurd h not_mem_nil
  covers := fun r h => absurd h not_mem_nil

theorem eq_of_shares (h : Collapses done unique) {u v : CollapsedSource} (hu : u ∈ unique)
    (hv : v ∈ unique) (hshares : u.source.shares v.source = true) : u = v := by
  have hsymm : Std.Symm fun u v : CollapsedSource => u.source.shares v.source = false :=
    ⟨fun u v huv => by rw [shares_comm, huv]⟩
  by_contra hne
  have hnot := (pairwise_map.mp h.apart).forall hu hv hne
  rw [hshares] at hnot
  cases hnot

theorem append (h : Collapses done unique)
    (hnew : ∀ u ∈ unique, record.shares u.source = false) :
    Collapses (done ++ [record]) (unique ++ [{ source := record }]) where
  apart := by
    rw [map_append]
    refine pairwise_append.mpr ⟨h.apart, pairwise_singleton _ _, fun a ha b hb => ?_⟩
    obtain ⟨u, hu, rfl⟩ := mem_map.mp ha
    obtain rfl := mem_singleton.mp hb
    rw [shares_comm]
    exact hnew u hu
  sublist := by
    rw [map_append]
    exact h.sublist.append (List.Sublist.refl _)
  classes := by
    intro u hu
    rcases mem_append.mp hu with hold | hlast
    · obtain ⟨others, hothers, hperm⟩ := h.classes u hold
      refine ⟨others, hothers, ?_⟩
      have hnot : u.source.agrees record = false := by
        by_contra hagrees
        rw [Bool.not_eq_false] at hagrees
        have hshares := shares_of_agrees (agrees_symm hagrees)
        rw [hnew u hold] at hshares
        cases hshares
      rw [filter_append, filter_singleton, hnot]
      simpa using hperm
    · obtain rfl := mem_singleton.mp hlast
      refine ⟨[], rfl, ?_⟩
      have hnone : done.filter record.agrees = [] := by
        refine filter_eq_nil_iff.mpr fun r hr hagrees => ?_
        obtain ⟨u, hu, hclass⟩ := h.covers r hr
        have hshares := shares_of_agrees (agrees_trans hagrees (agrees_symm hclass))
        rw [hnew u hu] at hshares
        cases hshares
      show [record].Perm ((done ++ [record]).filter record.agrees)
      rw [filter_append, hnone, filter_singleton, agrees_refl]
      exact List.Perm.refl _
  covers := by
    intro r hr
    rcases mem_append.mp hr with hold | hlast
    · obtain ⟨u, hu, hagrees⟩ := h.covers r hold
      exact ⟨u, mem_append_left _ hu, hagrees⟩
    · obtain rfl := mem_singleton.mp hlast
      exact ⟨{ source := r }, mem_append_right _ mem_cons_self, agrees_refl r⟩

theorem represent {before after : List CollapsedSource} {prior : CollapsedSource}
    (h : Collapses done (before ++ prior :: after)) (hagrees : record.agrees prior.source = true) :
    Collapses (done ++ [record]) (before ++ prior.represent record.producer :: after) := by
  have hsources : (before ++ prior.represent record.producer :: after).map CollapsedSource.source =
      (before ++ prior :: after).map CollapsedSource.source := by
    simp only [map_append, map_cons]
    rfl
  have hprior : prior ∈ before ++ prior :: after :=
    mem_append_right _ mem_cons_self
  have hother : ∀ u ∈ before ++ prior :: after, u ≠ prior → u.source.agrees record = false := by
    intro u hu hne
    by_contra hclass
    rw [Bool.not_eq_false] at hclass
    exact hne (h.eq_of_shares hu hprior (shares_of_agrees (agrees_trans hclass hagrees)))
  have hold : ∀ u ∈ before ++ prior :: after, u ≠ prior → ∃ others : List SourceRecord,
      u.representations = others.map SourceRecord.producer ∧
        (u.source :: others).Perm ((done ++ [record]).filter u.source.agrees) := by
    intro u hu hne
    obtain ⟨others, hothers, hperm⟩ := h.classes u hu
    refine ⟨others, hothers, ?_⟩
    rw [filter_append, filter_singleton, hother u hu hne]
    simpa using hperm
  have hnodup : (before ++ prior :: after).Nodup := by
    refine (pairwise_map.mp h.apart).imp fun {u v} huv heq => ?_
    rw [heq, shares_iff.mpr (.inl rfl)] at huv
    cases huv
  refine ⟨?_, ?_, ?_, ?_⟩
  · rw [hsources]
    exact h.apart
  · rw [hsources]
    exact h.sublist.trans (sublist_append_left _ _)
  · intro u hu
    have hne : ∀ v ∈ before ++ after, v ∈ before ++ prior :: after ∧ v ≠ prior := by
      intro v hv
      have hsplit := nodup_middle.mp hnodup
      refine ⟨?_, fun heq => (nodup_cons.mp hsplit).1 (heq ▸ hv)⟩
      rcases mem_append.mp hv with hbefore | hafter
      · exact mem_append_left _ hbefore
      · exact mem_append_right _ (mem_cons_of_mem _ hafter)
    rcases mem_append.mp hu with hbefore | hrest
    · obtain ⟨hmem, hne'⟩ := hne u (mem_append_left _ hbefore)
      exact hold u hmem hne'
    · rcases mem_cons.mp hrest with rfl | hafter
      · obtain ⟨others, hothers, hperm⟩ := h.classes prior hprior
        refine ⟨others ++ [record], ?_, ?_⟩
        · show prior.representations ++ [record.producer] = _
          rw [hothers, map_append]
          rfl
        · show (prior.source :: (others ++ [record])).Perm
            ((done ++ [record]).filter prior.source.agrees)
          rw [filter_append, filter_singleton, agrees_symm hagrees]
          exact hperm.append_right [record]
      · obtain ⟨hmem, hne'⟩ := hne u (mem_append_right _ hafter)
        exact hold u hmem hne'
  · intro r hr
    have hcovered : ∃ u ∈ before ++ prior :: after, u.source.agrees r = true := by
      rcases mem_append.mp hr with hdone | hlast
      · exact h.covers r hdone
      · obtain rfl := mem_singleton.mp hlast
        exact ⟨prior, hprior, agrees_symm hagrees⟩
    obtain ⟨u, hu, hclass⟩ := hcovered
    have hmem : u.source ∈
        (before ++ prior.represent record.producer :: after).map CollapsedSource.source := by
      rw [hsources]
      exact mem_map_of_mem hu
    obtain ⟨v, hv, hsource⟩ := mem_map.mp hmem
    exact ⟨v, hv, by rw [hsource]; exact hclass⟩

end Collapses

/-- Two records of a list share an identity and do not agree. -/
def Clashes (records : List SourceRecord) : Prop :=
  ∃ a ∈ records, ∃ b ∈ records, a.shares b = true ∧ a.agrees b = false

theorem foldlM_collapseNext (rest : List SourceRecord) {done : List SourceRecord}
    {unique : List CollapsedSource} (h : Collapses done unique) :
    (∃ e, rest.foldlM collapseNext unique = .error e ∧ Clashes (done ++ rest)) ∨
    ∃ unique', rest.foldlM collapseNext unique = .ok unique' ∧ Collapses (done ++ rest) unique' := by
  induction rest generalizing done unique with
  | nil => exact .inr ⟨unique, rfl, by rw [append_nil]; exact h⟩
  | cons record rest ih =>
    have hsplit : done ++ record :: rest = (done ++ [record]) ++ rest := by
      rw [append_assoc, singleton_append]
    rw [foldlM_cons, collapseNext]
    rcases collapseInto_cases record unique with ⟨e, herror, prior, hmem, hshares, hagrees⟩ |
      ⟨hnone, hnew⟩ | ⟨before, prior, after, rfl, hsome, hagrees⟩
    · rw [herror]
      refine .inl ⟨e, rfl, record, mem_append_right _ mem_cons_self, prior.source, ?_,
        hshares, hagrees⟩
      exact mem_append_left _ (h.sublist.subset (mem_map_of_mem hmem))
    · rw [hnone, hsplit]
      exact ih (h.append hnew)
    · rw [hsome, hsplit]
      exact ih (h.represent hagrees)

theorem deduplicateLegacySources_cases (records : List SourceRecord) :
    (∃ e, deduplicateLegacySources records = .error e ∧ Clashes records) ∨
    ∃ unique, deduplicateLegacySources records = .ok unique ∧
      Collapses (records.insertionSort fun a b => a.key ≤ b.key) unique := by
  have hperm := perm_insertionSort (fun a b : SourceRecord => a.key ≤ b.key) records
  rcases foldlM_collapseNext (records.insertionSort fun a b => a.key ≤ b.key) .nil with
    ⟨e, herror, a, ha, b, hb, hclash⟩ | ⟨unique, hok, hcollapses⟩
  · exact .inl ⟨e, herror, a, hperm.mem_iff.mp ha, b, hperm.mem_iff.mp hb, hclash⟩
  · exact .inr ⟨unique, hok, hcollapses⟩

theorem Collapses.not_clashes {records : List SourceRecord} {unique : List CollapsedSource}
    (h : Collapses records unique) : ¬ Clashes records := by
  rintro ⟨a, ha, b, hb, hshares, hagrees⟩
  obtain ⟨u, hu, hua⟩ := h.covers a ha
  obtain ⟨v, hv, hvb⟩ := h.covers b hb
  have huv : u.source.shares v.source = true := by
    rw [shares_congr hua, shares_comm, shares_congr hvb, shares_comm]
    exact hshares
  obtain rfl := h.eq_of_shares hu hv huv
  rw [agrees_trans (agrees_symm hua) hvb] at hagrees
  cases hagrees

theorem Clashes.perm {records records' : List SourceRecord} (h : records.Perm records')
    (hclash : Clashes records) : Clashes records' := by
  obtain ⟨a, ha, b, hb, hab⟩ := hclash
  exact ⟨a, h.mem_iff.mp ha, b, h.mem_iff.mp hb, hab⟩

/-- Two collapsed records are of one dispatch and have the same producers, whichever of them is the
representative. -/
def SameUpTo (u v : CollapsedSource) : Prop :=
  u.source.agrees v.source = true ∧
    (u.source.producer :: u.representations).Perm (v.source.producer :: v.representations)

namespace Collapses

variable {done done' : List SourceRecord} {unique unique' : List CollapsedSource}

theorem exists_sameUpTo (h : Collapses done unique) (h' : Collapses done' unique')
    (hperm : done.Perm done') {u : CollapsedSource} (hu : u ∈ unique) :
    ∃ v ∈ unique', SameUpTo u v := by
  have hmem : u.source ∈ done' :=
    hperm.mem_iff.mp (h.sublist.subset (mem_map_of_mem hu))
  obtain ⟨v, hv, hagrees⟩ := h'.covers _ hmem
  obtain ⟨others, hothers, hclass⟩ := h.classes u hu
  obtain ⟨others', hothers', hclass'⟩ := h'.classes v hv
  refine ⟨v, hv, agrees_symm hagrees, ?_⟩
  have hsame : u.source.agrees = v.source.agrees := by
    funext r
    exact agrees_congr (agrees_symm hagrees)
  have hmembers : (u.source :: others).Perm (v.source :: others') := by
    refine hclass.trans (List.Perm.trans ?_ hclass'.symm)
    rw [hsame]
    exact hperm.filter _
  rw [hothers, hothers']
  exact hmembers.map SourceRecord.producer

theorem keys_sorted (h : Collapses done unique) (hsorted : done.Pairwise fun a b => a.key ≤ b.key) :
    (unique.map fun u => u.source.key).Pairwise (· < ·) := by
  have hboth := (hsorted.sublist h.sublist).and h.apart
  rw [pairwise_map] at hboth ⊢
  refine hboth.imp fun {u v} huv => lt_of_le_of_ne huv.1 fun heq => ?_
  have hid : u.source.facts.dispatchId = v.source.facts.dispatchId :=
    (Prod.mk.inj (toLex_inj.mp heq)).2
  rw [shares_iff.mpr (.inl hid)] at huv
  cases huv.2

theorem forall₂_sameUpTo (h : Collapses done unique) (h' : Collapses done' unique')
    (hperm : done.Perm done') (hsorted : done.Pairwise fun a b => a.key ≤ b.key)
    (hsorted' : done'.Pairwise fun a b => a.key ≤ b.key) :
    List.Forall₂ SameUpTo unique unique' := by
  have hkeys : (unique.map fun u => u.source.key) = unique'.map fun u => u.source.key := by
    refine (h.keys_sorted hsorted).eq_of_mem_iff (h'.keys_sorted hsorted') fun key => ?_
    simp only [mem_map]
    constructor
    · rintro ⟨u, hu, rfl⟩
      obtain ⟨v, hv, hsame⟩ := h.exists_sameUpTo h' hperm hu
      exact ⟨v, hv, (key_of_agrees hsame.1).symm⟩
    · rintro ⟨v, hv, rfl⟩
      obtain ⟨u, hu, hsame⟩ := h'.exists_sameUpTo h hperm.symm hv
      exact ⟨u, hu, (key_of_agrees hsame.1).symm⟩
  have hplaces : List.Forall₂ (fun u v : CollapsedSource => u.source.key = v.source.key)
      unique unique' := by
    rw [← forall₂_eq_eq_eq, forall₂_map_left_iff, forall₂_map_right_iff] at hkeys
    exact hkeys
  refine forall₂_iff_zip.mpr ⟨hplaces.length_eq, fun {u v} hzip => ?_⟩
  obtain ⟨hu, hv⟩ := of_mem_zip hzip
  have hkey := forall₂_zip hplaces hzip
  obtain ⟨w, hw, hsame⟩ := h.exists_sameUpTo h' hperm hu
  have hid : w.source.facts.dispatchId = v.source.facts.dispatchId :=
    (Prod.mk.inj (toLex_inj.mp ((key_of_agrees hsame.1).symm.trans hkey))).2
  obtain rfl := h'.eq_of_shares hw hv (shares_iff.mpr (.inl hid))
  exact hsame

end Collapses

/-- The results for two orders of some records: both are refused, or both are records of the same
dispatches in the same places. -/
def SameOutcome : Except String (List CollapsedSource) → Except String (List CollapsedSource) → Prop
  | .ok unique, .ok unique' => List.Forall₂ SameUpTo unique unique'
  | .error _, .error _ => True
  | _, _ => False

/-- The unique records of a list: they differ in each identity, and every record of the list is one
of them or among the representations of one that it agrees with. -/
structure Represents (records : List SourceRecord) (unique : List CollapsedSource) : Prop where
  different : (unique.map CollapsedSource.source).Pairwise fun a b =>
    a.facts.dispatchId ≠ b.facts.dispatchId ∧ a.facts.passId ≠ b.facts.passId ∧
      a.producer.dispatchNonce ≠ b.producer.dispatchNonce
  found : ∀ r ∈ records, ∃ u ∈ unique,
    (u.source = r ∨ r.producer ∈ u.representations) ∧ u.source.facts.same r.facts = true ∧
      u.source.producer.dispatchNonce = r.producer.dispatchNonce ∧
      u.source.producer.provenanceSha256 = r.producer.provenanceSha256 ∧
      u.source.producer.agentSpecSha256 = r.producer.agentSpecSha256 ∧
      u.source.producer.agentArgvSha256 = r.producer.agentArgvSha256

theorem Collapses.represents {records : List SourceRecord} {unique : List CollapsedSource}
    (h : Collapses records unique) : Represents records unique := by
  refine ⟨h.apart.imp fun {a b} hab => ?_, fun r hr => ?_⟩
  · have hnone := mt shares_iff.mpr (Bool.eq_false_iff.mp hab)
    push Not at hnone
    exact hnone
  · obtain ⟨u, hu, hagrees⟩ := h.covers r hr
    obtain ⟨others, hothers, hclass⟩ := h.classes u hu
    refine ⟨u, hu, ?_, agrees_iff.mp hagrees⟩
    have hmem : r ∈ u.source :: others :=
      hclass.mem_iff.mpr (mem_filter.mpr ⟨hr, hagrees⟩)
    rcases mem_cons.mp hmem with rfl | hother
    · exact .inl rfl
    · rw [hothers]
      exact .inr (mem_map_of_mem hother)

/-- Legacy sources collapse to the same records, up to the choice of the representative, in every
order, and no record is lost. -/
theorem deduplicateLegacySources_consistent {records records' : List SourceRecord}
    (h : records.Perm records') :
    SameOutcome (deduplicateLegacySources records) (deduplicateLegacySources records') ∧
      ∀ unique, deduplicateLegacySources records = .ok unique → Represents records unique := by
  have hsort := perm_insertionSort (fun a b : SourceRecord => a.key ≤ b.key) records
  have hsort' := perm_insertionSort (fun a b : SourceRecord => a.key ≤ b.key) records'
  have hboth : (records.insertionSort fun a b => a.key ≤ b.key).Perm
      (records'.insertionSort fun a b => a.key ≤ b.key) := hsort.trans (h.trans hsort'.symm)
  have hsorted := fun l : List SourceRecord =>
    pairwise_insertionSort (fun a b : SourceRecord => a.key ≤ b.key) l
  constructor
  · rcases deduplicateLegacySources_cases records with ⟨e, herror, hclash⟩ | ⟨unique, hok, hcol⟩
    · rcases deduplicateLegacySources_cases records' with ⟨e', herror', -⟩ | ⟨unique', -, hcol'⟩
      · rw [herror, herror']
        trivial
      · exact absurd (hclash.perm (h.trans hsort'.symm)) hcol'.not_clashes
    · rcases deduplicateLegacySources_cases records' with ⟨e', -, hclash'⟩ | ⟨unique', hok', hcol'⟩
      · exact absurd (hclash'.perm (h.symm.trans hsort.symm)) hcol.not_clashes
      · rw [hok, hok']
        exact hcol.forall₂_sameUpTo hcol' hboth (hsorted _) (hsorted _)
  · intro unique hok
    rcases deduplicateLegacySources_cases records with ⟨e, herror, -⟩ | ⟨unique', hok', hcol⟩
    · rw [herror] at hok
      cases hok
    · obtain rfl := Except.ok.inj (hok.symm.trans hok')
      have hfound := hcol.represents
      exact ⟨hfound.different, fun r hr => hfound.found r (hsort.mem_iff.mpr hr)⟩

/-- A synchronous pass and the detached job of one dispatch. -/
def passAndJob : List SourceRecord :=
  let facts : LegacyFacts :=
    ⟨"d", "p", "b", "t", "l", .str "codex", "m", "high", .str "completed", "h", "t", "2025", .null⟩
  let producer : Producer := ⟨"pass", "1", "prov", "2", "n", "spec", "3", "argv", "4", none, none⟩
  [⟨facts, producer⟩, ⟨facts, { producer with job := some ("job", "5") }⟩]

theorem passAndJob_consistent :
    SameOutcome (deduplicateLegacySources passAndJob)
        (deduplicateLegacySources passAndJob.reverse) ∧
      ∀ unique, deduplicateLegacySources passAndJob = .ok unique → Represents passAndJob unique :=
  deduplicateLegacySources_consistent (reverse_perm passAndJob).symm

end Workbay.Review
