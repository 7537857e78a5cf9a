import Workbay.Wave.Proofs.BlockedProofs
import Workbay.Wave.Proofs.FrontierProofs

/-!
# What the frontier selects

The ready lanes are taken by the length of the longest path above them, and one is left out only for a
conflict with a lane taken before. Some lane is ready unless every pending lane is blocked or a lane is
busy: below a pending lane that is not blocked there is one whose dependencies are all integrated.
-/

namespace Workbay.Wave

open Relation Workbay.Graph List

variable {spec : WaveSpec} {states : Dict LaneId LaneStatus} {pairs : List (LaneId × LaneId)}

/-- A pending lane that is not blocked. -/
structure Waiting (spec : WaveSpec) (states : Dict LaneId LaneStatus) (laneId : LaneId) : Prop where
  known : laneId ∈ spec.laneIds
  pending : states.getD laneId .pending = .pending
  unblocked : laneId ∉ (blocked spec states).map Prod.fst

/-- A pending lane that is not blocked and whose dependencies are integrated. -/
structure Ready (spec : WaveSpec) (states : Dict LaneId LaneStatus) (laneId : LaneId) : Prop
    extends Waiting spec states laneId where
  integrated : ∀ d ∈ spec.dependsOn laneId, states.getD d .pending = .integrated

/-- A lane conflicts with one that is running, collected or gated. -/
def ConflictsBusy (states : Dict LaneId LaneStatus) (pairs : List (LaneId × LaneId))
    (laneId : LaneId) : Prop :=
  ∃ s ∈ states, s.2.isConflictHolding = true ∧ inConflict pairs laneId s.1 = true

theorem mem_candidates {x : LaneId} :
    x ∈ (spec.lanes.filter fun l => isCandidate spec states pairs l.1 l.2).map Prod.fst ↔
      Ready spec states x ∧ ¬ ConflictsBusy states pairs x := by
  have hbusy : ∀ x, ((states.filter fun s => s.2.isConflictHolding).any fun s =>
      inConflict pairs x s.1) = true ↔ ConflictsBusy states pairs x := by
    intro x
    simp only [any_eq_true, mem_filter, ConflictsBusy, and_assoc]
  rw [mem_map]
  constructor
  · rintro ⟨l, hl, rfl⟩
    obtain ⟨hmem, hcandidate⟩ := mem_filter.mp hl
    unfold isCandidate at hcandidate
    rw [Bool.and_eq_true, Bool.and_eq_true, Bool.and_eq_true, decide_eq_true_eq, decide_eq_true_eq,
      all_eq_true, Bool.not_eq_true'] at hcandidate
    obtain ⟨⟨⟨hpending, hblocked⟩, hdeps⟩, hfree⟩ := hcandidate
    refine ⟨⟨⟨mem_map_of_mem hmem, hpending, hblocked⟩, fun d hd => ?_⟩, fun hconflict => ?_⟩
    · rw [WaveSpec.dependsOn_of_mem hmem] at hd
      exact of_decide_eq_true (hdeps d hd)
    · rw [(hbusy l.1).mpr hconflict] at hfree
      cases hfree
  · rintro ⟨hready, hfree⟩
    obtain ⟨l, hl, rfl⟩ := mem_map.mp hready.known
    refine ⟨l, mem_filter.mpr ⟨hl, ?_⟩, rfl⟩
    unfold isCandidate
    rw [Bool.and_eq_true, Bool.and_eq_true, Bool.and_eq_true, decide_eq_true_eq, decide_eq_true_eq,
      all_eq_true, Bool.not_eq_true']
    refine ⟨⟨⟨hready.pending, hready.unblocked⟩, fun d hd => decide_eq_true ?_⟩, ?_⟩
    · exact hready.integrated d (WaveSpec.dependsOn_of_mem hl ▸ hd)
    · exact Bool.eq_false_iff.mpr fun hany => hfree ((hbusy l.1).mp hany)

theorem remainingPathLengths_spec {order : List LaneId} (hperm : order.Perm spec.laneIds)
    (hafter : AfterSuccessors spec.dependsOn order) :
    ∀ x ∈ spec.laneIds, LongestFrom (Step (forward spec)) x
      (Dict.getD (remainingPathLengths spec order) x 0) := by
  have hnodup : order.Nodup := hperm.nodup_iff.mpr spec.laneIds_nodup
  have hreverse : AfterSuccessors (forward spec) order.reverse :=
    hafter.reverse hnodup fun x y hy =>
      ⟨hperm.mem_iff.mpr (mem_laneIds_of_dependsOn (mem_forward.mp hy)), mem_forward.mp hy⟩
  have hstep : ∀ (table : Dict LaneId Nat), ∀ x ∈ order.reverse,
      (∀ y ∈ forward spec x, ∃ n, table.get? y = some n ∧ LongestFrom (Step (forward spec)) y n) →
      LongestFrom (Step (forward spec)) x
        (((forward spec x).map fun child => table.getD child 0 + 1).foldl max 0) := by
    intro table x _ hchildren
    refine longestFrom_foldl_max fun y hy => ?_
    obtain ⟨n, hn, hlongest⟩ := hchildren y hy
    rw [Dict.getD, hn]
    exact hlongest
  intro x hx
  obtain ⟨n, hn, hlongest⟩ := tabulate_forall hreverse (nodup_reverse.mpr hnodup) hstep x
    (mem_reverse.mpr (hperm.mem_iff.mpr hx))
  have hget : Dict.get? (remainingPathLengths spec order) x = some n := hn
  rw [Dict.getD, hget]
  exact hlongest

/-- A lane comes before another: it has the longer path above it, or an equal one and the lesser id. -/
def Precedes (spec : WaveSpec) (a b : LaneId) : Prop :=
  ∃ m n, LongestFrom (Step (forward spec)) a m ∧ LongestFrom (Step (forward spec)) b n ∧
    (n < m ∨ (m = n ∧ a ≤ b))

/-- The order in which the candidates are taken. -/
def takesFirst (remaining : Dict LaneId Nat) (a b : LaneId) : Prop :=
  remaining.getD b 0 < remaining.getD a 0 ∨
    (remaining.getD a 0 = remaining.getD b 0 ∧ a ≤ b)

instance (remaining : Dict LaneId Nat) : DecidableRel (takesFirst remaining) := fun _ _ =>
  inferInstanceAs (Decidable (_ ∨ _))

instance (remaining : Dict LaneId Nat) : Std.Total (takesFirst remaining) where
  total a b := by
    unfold takesFirst
    rcases Nat.lt_trichotomy (remaining.getD a 0) (remaining.getD b 0) with hlt | heq | hgt
    · exact .inr (.inl hlt)
    · rcases le_total a b with hab | hba
      · exact .inl (.inr ⟨heq, hab⟩)
      · exact .inr (.inr ⟨heq.symm, hba⟩)
    · exact .inl (.inl hgt)

instance (remaining : Dict LaneId Nat) : IsTrans LaneId (takesFirst remaining) where
  trans a b c hab hbc := by
    unfold takesFirst at hab hbc ⊢
    rcases hab with hab | ⟨hab, hle⟩
    · exact .inl (by omega)
    · rcases hbc with hbc | ⟨hbc, hle'⟩
      · exact .inl (by omega)
      · exact .inr ⟨hab.trans hbc, hle.trans hle'⟩

theorem selectConflictFree_maximal {r : LaneId → LaneId → Prop} {candidates : List LaneId}
    (hsorted : candidates.Pairwise r) :
    ∀ x ∈ candidates, x ∉ selectConflictFree pairs candidates →
      ∃ y ∈ selectConflictFree pairs candidates, inConflict pairs x y = true ∧ r y x := by
  induction candidates using List.reverseRecOn with
  | nil => exact fun _ hx => (by cases hx)
  | append_singleton candidates z ih =>
    obtain ⟨hcandidates, -, hlast⟩ := pairwise_append.mp hsorted
    intro x hx hout
    rw [selectConflictFree_concat] at hout ⊢
    rcases mem_append.mp hx with hx | hx
    · have hsub : ∀ y ∈ selectConflictFree pairs candidates,
          y ∈ if (selectConflictFree pairs candidates).any fun chosen => inConflict pairs z chosen then
            selectConflictFree pairs candidates
          else selectConflictFree pairs candidates ++ [z] := by
        intro y hy
        split_ifs
        · exact hy
        · exact mem_append_left _ hy
      obtain ⟨y, hy, hconflict, hr⟩ := ih hcandidates x hx fun hin => hout (hsub x hin)
      exact ⟨y, hsub y hy, hconflict, hr⟩
    · obtain rfl := mem_singleton.mp hx
      split_ifs at hout ⊢ with hany
      · obtain ⟨y, hy, hconflict⟩ := any_eq_true.mp hany
        exact ⟨y, hy, hconflict,
          hlast y ((selectConflictFree_sublist candidates).subset hy) x (mem_singleton_self x)⟩
      · exact absurd (mem_append_right _ (mem_singleton_self x)) hout

theorem selectConflictFree_ne_nil {candidates : List LaneId} (h : candidates ≠ []) :
    selectConflictFree pairs candidates ≠ [] := by
  obtain ⟨x, hx⟩ := exists_mem_of_ne_nil _ h
  intro hnil
  obtain ⟨y, hy, -⟩ := selectConflictFree_maximal (r := fun _ _ => True)
    (pairwise_of_forall fun _ _ => trivial) x hx (by rw [hnil]; exact not_mem_nil)
  rw [hnil] at hy
  cases hy

theorem exists_ready (h : validate spec = [])
    (hidle : ∀ s ∈ states, s.2.isConflictHolding = false) :
    ∀ x ∈ spec.laneIds, Waiting spec states x → ∃ y, Ready spec states y := by
  obtain ⟨-, hknown, hacyclic⟩ := (validate_eq_nil_iff spec).mp h
  refine hacyclic.induction (fun x _ y hy => (hknown x y hy).2) fun x hx ih hwaiting => ?_
  by_cases hall : ∀ d ∈ spec.dependsOn x, states.getD d .pending = .integrated
  · exact ⟨x, hwaiting, hall⟩
  · push Not at hall
    obtain ⟨d, hd, hnot⟩ := hall
    have hfree : ∀ y, TransGen (Step spec.dependsOn) x y → ¬ Blocks states y := fun y hy hblocks =>
      hwaiting.unblocked ((mem_map_fst_blocked h).mpr ⟨hx, y, hy, hblocks⟩)
    have hholding : (states.getD d .pending).isConflictHolding = false := by
      unfold Dict.getD
      cases hget : states.get? d with
      | none => rfl
      | some s => exact hidle (d, s) (Dict.mem_of_get? hget)
    have hpending : states.getD d .pending = .pending := by
      have hblocks := hfree d (TransGen.single hd)
      unfold Blocks at hblocks
      cases hstate : states.getD d .pending with
      | pending => rfl
      | running | collected | gated =>
        rw [hstate] at hholding
        cases hholding
      | integrated => exact absurd hstate hnot
      | failed | parked =>
        rw [hstate] at hblocks
        exact absurd rfl hblocks
    refine ih d hd ⟨(hknown x d hd).2, hpending, fun hblocked => ?_⟩
    obtain ⟨-, y, hpath, hblocks⟩ := (mem_map_fst_blocked h).mp hblocked
    exact hfree y (TransGen.head hd hpath) hblocks

/-- In a valid wave the frontier has ready lanes only, in the order of their priority and without conflicts
with busy lanes or with each other; a ready lane is left out for a conflict with a busy lane or with one
that comes before it. A width takes the first ones. When nothing is busy and some lane waits, the frontier
is not empty. -/
theorem frontier_exact (spec : WaveSpec) (h : validate spec = []) (states : Dict LaneId LaneStatus) :
    ∃ pairs selected, conflicts spec = .ok pairs ∧ frontier spec states none = .ok selected ∧
      (∀ x ∈ selected, Ready spec states x ∧ ¬ ConflictsBusy states pairs x) ∧
      (selected.Pairwise fun a b => inConflict pairs a b = false) ∧
      selected.Nodup ∧ selected.Pairwise (Precedes spec) ∧
      (∀ x, Ready spec states x → x ∉ selected → ConflictsBusy states pairs x ∨
        ∃ y ∈ selected, inConflict pairs x y = true ∧ Precedes spec y x) ∧
      (∀ width : Int, frontier spec states (some width) = .ok (selected.take width.toNat)) ∧
      ((∀ s ∈ states, s.2.isConflictHolding = false) → (∃ x, Waiting spec states x) →
        ∀ width : Int, 1 ≤ width → selected.take width.toNat ≠ []) := by
  obtain ⟨order, horder, hperm, hafter⟩ := topologicalOrder_spec h
  obtain ⟨hpaths, -, -⟩ := (validate_eq_nil_iff spec).mp h
  obtain ⟨pairs, hpairs⟩ : ∃ pairs, conflicts spec = .ok pairs := by
    unfold conflicts
    rw [nonCanonicalOwnedPaths_eq_nil_iff.mpr hpaths]
    exact ⟨_, rfl⟩
  have hremaining := remainingPathLengths_spec hperm hafter
  set candidates := (spec.lanes.filter fun l => isCandidate spec states pairs l.1 l.2).map Prod.fst
    with hcandidates
  set sorted := candidates.insertionSort (takesFirst (remainingPathLengths spec order)) with hsorted
  have hmem : ∀ x, x ∈ sorted ↔ Ready spec states x ∧ ¬ ConflictsBusy states pairs x := fun x => by
    rw [hsorted, mem_insertionSort, hcandidates, mem_candidates]
  have hfrontier : frontier spec states none = .ok (selectConflictFree pairs sorted) := by
    unfold frontier
    rw [horder, hpairs]
    rfl
  have hwidth : ∀ width : Int, frontier spec states (some width) =
      .ok ((selectConflictFree pairs sorted).take width.toNat) := by
    intro width
    unfold frontier
    rw [horder, hpairs]
    rfl
  have hsub : (selectConflictFree pairs sorted).Sublist sorted := selectConflictFree_sublist sorted
  have hprecedes : sorted.Pairwise (Precedes spec) := by
    have hpairwise := pairwise_insertionSort (takesFirst (remainingPathLengths spec order))
      candidates
    refine hpairwise.imp_of_mem fun {a b} ha hb hab => ?_
    exact ⟨_, _, hremaining a ((hmem a).mp ha).1.known, hremaining b ((hmem b).mp hb).1.known, hab⟩
  have hnodup : sorted.Nodup := by
    refine (perm_insertionSort _ _).nodup_iff.mpr ?_
    exact spec.laneIds_nodup.sublist (filter_sublist.map Prod.fst)
  refine ⟨pairs, selectConflictFree pairs sorted, hpairs, hfrontier,
    fun x hx => (hmem x).mp (hsub.subset hx), selectConflictFree_pairwise sorted,
    hnodup.sublist hsub, hprecedes.sublist hsub, fun x hready hout => ?_,
    hwidth,
    fun hidle hwaiting width hpositive => ?_⟩
  · by_cases hbusy : ConflictsBusy states pairs x
    · exact .inl hbusy
    · exact .inr (selectConflictFree_maximal hprecedes x ((hmem x).mpr ⟨hready, hbusy⟩) hout)
  · obtain ⟨x, hwaiting⟩ := hwaiting
    obtain ⟨y, hready⟩ := exists_ready h hidle x hwaiting.known hwaiting
    have hfree : ¬ ConflictsBusy states pairs y := by
      rintro ⟨s, hs, hholding, -⟩
      rw [hidle s hs] at hholding
      cases hholding
    have hne : selectConflictFree pairs sorted ≠ [] :=
      selectConflictFree_ne_nil (ne_nil_of_mem ((hmem y).mpr ⟨hready, hfree⟩))
    have hpos := length_pos_iff.mpr hne
    refine ne_nil_of_length_pos ?_
    rw [length_take]
    omega

theorem frontier_exact_pair : ∃ selected, frontier pairSpec [] none = .ok selected := by
  obtain ⟨-, selected, -, hselected, -⟩ := frontier_exact pairSpec pairSpec_valid []
  exact ⟨selected, hselected⟩

end Workbay.Wave
