import Mathlib.Algebra.Order.BigOperators.Group.List
import Workbay.Graph.Breadth
import Workbay.Wave.Proofs.OrderProofs

/-!
# Blocked lanes

The blockers of a lane are the failed and parked lanes that a breadth-first search along its
dependencies meets, so that the least of them is as near as any.
-/

namespace Workbay.Wave

open Relation Workbay.Graph List

variable {spec : WaveSpec} {states : Dict LaneId LaneStatus}

/-- A lane is failed or parked. -/
def Blocks (states : Dict LaneId LaneStatus) (laneId : LaneId) : Prop :=
  (states.getD laneId .pending).isBlocking = true

instance (states : Dict LaneId LaneStatus) (laneId : LaneId) : Decidable (Blocks states laneId) :=
  inferInstanceAs (Decidable (_ = true))

theorem blockers_eq (spec : WaveSpec) (states : Dict LaneId LaneStatus) :
    ∀ (fuel : Nat) (queue : List (LaneId × Nat)) (seen : List LaneId) (candidates : List (Nat × LaneId)),
      blockers spec states fuel queue seen candidates = candidates ++
        ((breadth spec.dependsOn fuel queue seen).filter fun e => decide (Blocks states e.1)).map
          Prod.swap := by
  intro fuel
  induction fuel with
  | zero => exact fun _ _ candidates => (append_nil candidates).symm
  | succ fuel ih =>
    intro queue seen candidates
    cases queue with
    | nil => exact (append_nil candidates).symm
    | cons e queue =>
      obtain ⟨ancestor, distance⟩ := e
      rw [blockers, breadth]
      by_cases hseen : ancestor ∈ seen
      · rw [if_pos hseen, if_pos hseen]
        exact ih queue seen candidates
      · rw [if_neg hseen, if_neg hseen]
        dsimp only
        rw [ih, filter_cons]
        by_cases hblocks : (states.getD ancestor .pending).isBlocking = true
        · have hkeep : decide (Blocks states ancestor) = true := decide_eq_true hblocks
          rw [if_pos hblocks, if_pos hkeep, append_assoc]
          rfl
        · have hleave : ¬ decide (Blocks states ancestor) = true := fun hin =>
            hblocks (of_decide_eq_true hin)
          rw [if_neg hblocks, if_neg hleave]

theorem degreeSum_dependsOn (spec : WaveSpec) :
    degreeSum spec.dependsOn spec.laneIds = spec.edgeCount := by
  unfold degreeSum WaveSpec.edgeCount WaveSpec.laneIds
  rw [List.map_map]
  exact congrArg List.sum (List.map_congr_left fun l hl =>
    congrArg List.length (WaveSpec.dependsOn_of_mem hl))

theorem mem_blockers {l : LaneId × LaneSpec} (hl : l ∈ spec.lanes) (n : Nat) (y : LaneId) :
    (n, y) ∈ blockers spec states (2 * spec.edgeCount + 1)
        (l.2.dependsOn.map fun dependency => (dependency, 1)) [] [] ↔
      Distance spec.dependsOn l.1 y n ∧ Blocks states y := by
  have hdomain : ∀ x, spec.dependsOn x ≠ [] → x ∈ spec.laneIds := by
    intro x hx
    obtain ⟨y, hy⟩ := exists_mem_of_ne_nil _ hx
    exact mem_laneIds_of_dependsOn hy
  have hdegree : (spec.dependsOn l.1).length ≤ spec.edgeCount := by
    rw [WaveSpec.dependsOn_of_mem hl]
    exact single_le_sum (fun _ _ => Nat.zero_le _) _
      (mem_map_of_mem (f := fun l : LaneId × LaneSpec => l.2.dependsOn.length) hl)
  have hfuel : (spec.dependsOn l.1).length + degreeSum spec.dependsOn spec.laneIds ≤
      2 * spec.edgeCount + 1 := by
    rw [degreeSum_dependsOn]
    omega
  rw [blockers_eq, nil_append, ← WaveSpec.dependsOn_of_mem hl, mem_map]
  constructor
  · rintro ⟨⟨y', n'⟩, he, heq⟩
    obtain ⟨rfl, rfl⟩ := Prod.mk.inj heq
    obtain ⟨hmem, hblocks⟩ := mem_filter.mp he
    exact ⟨(mem_breadth hdomain hfuel _ _).mp hmem, of_decide_eq_true hblocks⟩
  · rintro ⟨hdistance, hblocks⟩
    exact ⟨(y, n), mem_filter.mpr ⟨(mem_breadth hdomain hfuel y n).mpr hdistance,
      decide_eq_true hblocks⟩, rfl⟩

theorem nearer_iff {a b : Nat × LaneId} :
    nearer a b = true ↔ a.1 < b.1 ∨ (a.1 = b.1 ∧ a.2 ≤ b.2) := decide_eq_true_iff

theorem nearer_trans {a b c : Nat × LaneId} (hab : nearer a b = true) (hbc : nearer b c = true) :
    nearer a c = true := by
  rw [nearer_iff] at hab hbc ⊢
  rcases hab with hab | ⟨hab, hle⟩
  · exact .inl (by omega)
  · rcases hbc with hbc | ⟨hbc, hle'⟩
    · exact .inl (by omega)
    · exact .inr ⟨hab.trans hbc, hle.trans hle'⟩

theorem nearer_total {a b : Nat × LaneId} (h : nearer a b = false) : nearer b a = true := by
  have hnot : ¬ (a.1 < b.1 ∨ (a.1 = b.1 ∧ a.2 ≤ b.2)) := of_decide_eq_false h
  rw [nearer_iff]
  rcases Nat.lt_trichotomy a.1 b.1 with hlt | heq | hgt
  · exact absurd (.inl hlt) hnot
  · refine .inr ⟨heq.symm, ?_⟩
    rcases le_total a.2 b.2 with hle | hle
    · exact absurd (.inr ⟨heq, hle⟩) hnot
    · exact hle
  · exact .inl hgt

theorem nearest_spec (rest : List (Nat × LaneId)) (first : Nat × LaneId) :
    rest.foldl (fun best c => if nearer best c then best else c) first ∈ first :: rest ∧
      ∀ c ∈ first :: rest,
        nearer (rest.foldl (fun best c => if nearer best c then best else c) first) c = true := by
  have hself : ∀ c : Nat × LaneId, nearer c c = true := fun c => nearer_iff.mpr (.inr ⟨rfl, le_refl _⟩)
  induction rest generalizing first with
  | nil => simpa using hself first
  | cons c rest ih =>
    rw [foldl_cons]
    cases hc : nearer first c with
    | true =>
      obtain ⟨hin, hall⟩ := ih first
      rw [if_pos rfl]
      refine ⟨?_, fun d hd => ?_⟩
      · rcases mem_cons.mp hin with heq | hin
        · rw [heq]
          exact mem_cons_self
        · exact mem_cons_of_mem _ (mem_cons_of_mem _ hin)
      · rcases mem_cons.mp hd with rfl | hd
        · exact hall d mem_cons_self
        · rcases mem_cons.mp hd with rfl | hd
          · exact nearer_trans (hall first mem_cons_self) hc
          · exact hall d (mem_cons_of_mem _ hd)
    | false =>
      obtain ⟨hin, hall⟩ := ih c
      rw [if_neg Bool.false_ne_true]
      refine ⟨mem_cons_of_mem _ hin, fun d hd => ?_⟩
      rcases mem_cons.mp hd with rfl | hd
      · exact nearer_trans (hall c mem_cons_self) (nearer_total hc)
      · exact hall d hd

theorem mem_blocked (h : validate spec = []) {x cause : LaneId} :
    (x, cause) ∈ blocked spec states → x ∈ spec.laneIds ∧ ∃ n,
      Distance spec.dependsOn x cause n ∧ Blocks states cause ∧
        ∀ y m, Distance spec.dependsOn x y m → Blocks states y → n < m ∨ n = m ∧ cause ≤ y := by
  unfold blocked
  rw [if_neg (not_not.mpr h)]
  intro hin
  obtain ⟨l, hl, hsome⟩ := mem_filterMap.mp hin
  dsimp only at hsome
  cases hblockers : blockers spec states (2 * spec.edgeCount + 1)
      (l.2.dependsOn.map fun dependency => (dependency, 1)) [] [] with
  | nil =>
    rw [hblockers] at hsome
    cases hsome
  | cons first rest =>
    rw [hblockers] at hsome
    obtain ⟨rfl, rfl⟩ := Prod.mk.inj (Option.some.inj hsome)
    obtain ⟨hmem, hleast⟩ := nearest_spec rest first
    rw [← hblockers] at hmem hleast
    obtain ⟨hdistance, hblocks⟩ := (mem_blockers hl _ _).mp hmem
    refine ⟨mem_map_of_mem hl, _, hdistance, hblocks, fun y m hy hyblocks => ?_⟩
    exact nearer_iff.mp (hleast (m, y) ((mem_blockers hl m y).mpr ⟨hy, hyblocks⟩))

theorem map_fst_blocked_nodup (spec : WaveSpec) (states : Dict LaneId LaneStatus) :
    ((blocked spec states).map Prod.fst).Nodup := by
  unfold blocked
  split_ifs
  · exact nodup_nil
  · refine spec.laneIds_nodup.sublist ?_
    rw [WaveSpec.laneIds]
    induction spec.lanes with
    | nil => exact List.Sublist.refl _
    | cons l lanes ih =>
      rw [filterMap_cons]
      dsimp only
      split
      · exact ih.cons _
      · next b hb =>
        split at hb
        · cases hb
        · obtain rfl := Option.some.inj hb
          exact ih.cons_cons _

theorem mem_map_fst_blocked (h : validate spec = []) {x : LaneId} :
    x ∈ (blocked spec states).map Prod.fst ↔
      x ∈ spec.laneIds ∧ ∃ y, TransGen (Step spec.dependsOn) x y ∧ Blocks states y := by
  constructor
  · intro hx
    obtain ⟨⟨x, cause⟩, hmem, rfl⟩ := mem_map.mp hx
    obtain ⟨hlane, n, hdistance, hblocks, -⟩ := mem_blocked h hmem
    exact ⟨hlane, cause, transGen_iff_walk.mpr ⟨n, hdistance.pos, hdistance.walk⟩, hblocks⟩
  · rintro ⟨hx, y, hpath, hblocks⟩
    obtain ⟨l, hl, rfl⟩ := mem_map.mp hx
    obtain ⟨n, hdistance⟩ := exists_distance hpath
    have hin := (mem_blockers hl n y).mpr ⟨hdistance, hblocks⟩
    unfold blocked
    rw [if_neg (not_not.mpr h)]
    cases hblockers : blockers spec states (2 * spec.edgeCount + 1)
        (l.2.dependsOn.map fun dependency => (dependency, 1)) [] [] with
    | nil =>
      rw [hblockers] at hin
      cases hin
    | cons first rest =>
      refine mem_map.mpr
        ⟨(l.1, (rest.foldl (fun best c => if nearer best c then best else c) first).2),
          mem_filterMap.mpr ⟨l, hl, ?_⟩, rfl⟩
      dsimp only
      rw [hblockers]

/-- In a valid wave the lanes that have a failed or parked ancestor are blocked, each by the least of its
nearest ones. -/
theorem blocked_exact (spec : WaveSpec) (h : validate spec = []) (states : Dict LaneId LaneStatus) :
    ((blocked spec states).map Prod.fst).Nodup ∧
    (∀ x, x ∈ (blocked spec states).map Prod.fst ↔
      x ∈ spec.laneIds ∧ ∃ y, TransGen (Step spec.dependsOn) x y ∧
        (states.getD y .pending).isBlocking = true) ∧
    ∀ x cause, (x, cause) ∈ blocked spec states → ∃ n, Distance spec.dependsOn x cause n ∧
      (states.getD cause .pending).isBlocking = true ∧
      ∀ y m, Distance spec.dependsOn x y m → (states.getD y .pending).isBlocking = true →
        n < m ∨ n = m ∧ cause ≤ y :=
  ⟨map_fst_blocked_nodup spec states, fun _ => mem_map_fst_blocked h,
    fun _ _ hmem => (mem_blocked h hmem).2⟩

theorem blocked_exact_pair : ∃ n, Distance pairSpec.dependsOn "b" "a" n := by
  have h := (blocked_exact pairSpec pairSpec_valid [("a", .failed)]).2.2 "b" "a" (by decide +kernel)
  obtain ⟨n, hn, -⟩ := h
  exact ⟨n, hn⟩

end Workbay.Wave
