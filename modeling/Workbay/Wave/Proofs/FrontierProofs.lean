import Workbay.Wave.Proofs.SupervisorProofs
import Workbay.Wave.Proofs.ValidateProofs

/-!
# The frontier can start as a whole

The lanes of the frontier are pending, their dependencies are integrated, and they conflict neither
with a busy lane nor with one another, so they can be started one after the other.
-/

namespace Workbay.Wave

open List

section

variable {pairs : List (LaneId × LaneId)}

theorem inConflict_comm (a b : LaneId) : inConflict pairs a b = inConflict pairs b a := by
  unfold inConflict
  rw [decide_eq_decide, or_comm]

variable (candidates : List LaneId)

theorem selectConflictFree_concat (laneId : LaneId) :
    selectConflictFree pairs (candidates ++ [laneId]) =
      if (selectConflictFree pairs candidates).any fun chosen => inConflict pairs laneId chosen then
        selectConflictFree pairs candidates
      else selectConflictFree pairs candidates ++ [laneId] := by
  unfold selectConflictFree
  rw [foldl_append]
  rfl

theorem selectConflictFree_sublist :
    (selectConflictFree pairs candidates).Sublist candidates := by
  induction candidates using List.reverseRecOn with
  | nil => exact List.Sublist.refl _
  | append_singleton candidates laneId ih =>
    rw [selectConflictFree_concat]
    split_ifs
    · exact ih.trans (sublist_append_left _ _)
    · exact ih.append (List.Sublist.refl _)

theorem selectConflictFree_pairwise :
    (selectConflictFree pairs candidates).Pairwise fun a b => inConflict pairs a b = false := by
  induction candidates using List.reverseRecOn with
  | nil => exact List.Pairwise.nil
  | append_singleton candidates laneId ih =>
    rw [selectConflictFree_concat]
    split_ifs with h
    · exact ih
    · refine pairwise_append.mpr ⟨ih, pairwise_singleton _ _, fun a ha b hb => ?_⟩
      obtain rfl := mem_singleton.mp hb
      simp only [any_eq_true, not_exists, not_and, Bool.not_eq_true] at h
      rw [inConflict_comm]
      exact h a ha

end

theorem kahn_forall {children : LaneId → List LaneId} {P : LaneId → Prop}
    (hchildren : ∀ l, ∀ c ∈ children l, P c) :
    ∀ (fuel : Nat) (ready : List LaneId) (indegree : Dict LaneId Int) (order : List LaneId),
      (∀ l ∈ ready, P l) → (∀ l ∈ order, P l) → ∀ l ∈ kahn children fuel ready indegree order, P l := by
  intro fuel
  induction fuel with
  | zero => exact fun _ _ _ _ horder => horder
  | succ fuel ih =>
    intro ready indegree order hready horder
    cases ready with
    | nil => exact horder
    | cons laneId ready =>
      unfold kahn
      refine ih _ _ _ ?_ ?_
      · -- the children of the lane are put among the ready ones
        have hfold : ∀ (cs : List LaneId) (s : List LaneId × Dict LaneId Int), (∀ c ∈ cs, P c) →
            (∀ l ∈ s.1, P l) → ∀ l ∈ (cs.foldl (fun (s : List LaneId × Dict LaneId Int) child =>
              let degree := s.2.getD child 0 - 1
              (if degree = 0 then s.1.orderedInsert (· ≤ ·) child else s.1,
                s.2.set child degree)) s).1, P l := by
          intro cs
          induction cs with
          | nil => exact fun _ _ hs => hs
          | cons c cs ihc =>
            intro s hcs hs
            refine ihc _ (fun c' hc' => hcs c' (mem_cons_of_mem _ hc')) fun l hl => ?_
            simp only at hl
            split_ifs at hl with hdegree
            · rcases mem_orderedInsert (r := fun a b : LaneId => a ≤ b) |>.mp hl with rfl | hl
              · exact hcs l mem_cons_self
              · exact hs l hl
            · exact hs l hl
        exact hfold _ _ (hchildren laneId) fun l hl => hready l (mem_cons_of_mem _ hl)
      · intro l hl
        rcases mem_append.mp hl with hl | hl
        · exact horder l hl
        · exact mem_singleton.mp hl ▸ hready laneId mem_cons_self

theorem mem_laneIds_of_integrationOrder {spec : WaveSpec} {done : List LaneId} {laneId : LaneId}
    (h : laneId ∈ integrationOrder spec done) : laneId ∈ spec.laneIds := by
  unfold integrationOrder at h
  split_ifs at h with hvalid
  · simp at h
  · refine kahn_forall (P := fun l => l ∈ spec.laneIds) ?_ _ _ _ _ ?_ (by simp) laneId h
    · intro l c hc
      obtain ⟨e, he, rfl⟩ := mem_map.mp hc
      exact mem_map_of_mem (f := Prod.fst) (mem_filter.mp (mem_filter.mp he).1).1
    · intro l hl
      obtain ⟨e, he, rfl⟩ := mem_map.mp ((mem_insertionSort _).mp hl)
      obtain ⟨e', he', rfl⟩ := mem_map.mp (mem_filter.mp he).1
      exact mem_map_of_mem (f := Prod.fst) (mem_filter.mp he').1

theorem mem_laneIds_of_blocked {spec : WaveSpec} {states : Dict LaneId LaneStatus}
    {lane : LaneId × LaneId} (h : lane ∈ blocked spec states) : lane.1 ∈ spec.laneIds := by
  unfold blocked at h
  split_ifs at h with hvalid
  · simp at h
  · obtain ⟨l, hl, hsome⟩ := mem_filterMap.mp h
    simp only at hsome
    split at hsome
    · simp at hsome
    · obtain rfl := Option.some.inj hsome
      exact mem_map_of_mem (f := Prod.fst) hl

theorem getD_schedulerStates (spec : WaveSpec) (states : LaneStates) (laneId : LaneId) :
    Dict.getD (schedulerStates spec states) laneId .pending =
      if laneId ∈ spec.laneIds then (states.lane laneId).state else .pending := by
  have hnd : ((schedulerStates spec states).map Prod.fst).Nodup := by
    have hkeys : (schedulerStates spec states).map Prod.fst = spec.laneIds := by
      simp [schedulerStates, map_map, Function.comp_def]
    rw [hkeys]
    exact spec.laneIds_nodup
  unfold Dict.getD
  by_cases hmem : laneId ∈ spec.laneIds
  · rw [if_pos hmem, Dict.get?_of_mem hnd (v := (states.lane laneId).state)
      (mem_map.mpr ⟨laneId, hmem, rfl⟩)]
    rfl
  · have hnone : Dict.get? (schedulerStates spec states) laneId = none := by
      rw [Dict.get?_eq_none_iff]
      simp [schedulerStates, map_map, Function.comp_def, hmem]
    rw [if_neg hmem, hnone]
    rfl

theorem countP_le_succ {α : Type} {l : List α} (hnd : l.Nodup) {p q : α → Bool} {a : α}
    (h : ∀ b, b ≠ a → q b = p b) : l.countP q ≤ l.countP p + 1 := by
  induction l with
  | nil => simp
  | cons b l ih =>
    obtain ⟨hb, hl⟩ := nodup_cons.mp hnd
    rw [countP_cons, countP_cons]
    by_cases heq : b = a
    · have hsame : l.countP q = l.countP p :=
        countP_congr fun c hc => by rw [h c fun hca => hb (heq ▸ hca ▸ hc)]
      split_ifs <;> omega
    · rw [h b heq]
      have := ih hl
      omega

/-! ## Lanes that can start one after the other -/

/-- The lanes `ready` can be started in their order. -/
structure ReadyLanes (spec : WaveSpec) (width : Int) (lane : LaneId → LaneState)
    (ready : List LaneId) : Prop where
  nodup : ready.Nodup
  known : ∀ laneId ∈ ready, laneId ∈ spec.laneIds
  pending : ∀ laneId ∈ ready, (lane laneId).state = .pending
  integrated : ∀ laneId ∈ ready, ∀ dependency ∈ spec.dependsOn laneId,
    (lane dependency).state = .integrated
  free : ∀ pairs, conflicts spec = .ok pairs → ∀ laneId ∈ ready, ∀ other ∈ spec.laneIds,
    (lane other).state.isConflictHolding = true → inConflict pairs laneId other = false
  apart : ∀ pairs, conflicts spec = .ok pairs →
    ready.Pairwise fun a b => inConflict pairs a b = false
  room : ready ≠ [] →
    (((spec.laneIds.countP fun l => decide ((lane l).state = .running)) + ready.length : Nat) : Int)
      ≤ width

namespace ReadyLanes

variable {spec : WaveSpec} {width : Int} {lane : LaneId → LaneState} {laneId : LaneId}
  {rest : List LaneId}

theorem nil (spec : WaveSpec) (width : Int) (lane : LaneId → LaneState) :
    ReadyLanes spec width lane [] := by
  constructor <;> simp

theorem head (h : ReadyLanes spec width lane (laneId :: rest)) :
    Startable spec width lane laneId := by
  refine ⟨h.integrated laneId mem_cons_self,
    fun pairs hp => h.free pairs hp laneId mem_cons_self, ?_⟩
  have hroom := h.room (cons_ne_nil _ _)
  simp only [length_cons] at hroom
  omega

theorem tail (h : ReadyLanes spec width lane (laneId :: rest)) (st : LaneState) :
    ReadyLanes spec width (Function.update lane laneId st) rest := by
  have hsub : ∀ l ∈ rest, l ∈ laneId :: rest := fun l hl => mem_cons_of_mem _ hl
  have hne : ∀ l ∈ rest, l ≠ laneId := fun l hl heq =>
    (nodup_cons.mp h.nodup).1 (heq ▸ hl)
  have hpending := h.pending laneId mem_cons_self
  refine ⟨(nodup_cons.mp h.nodup).2, fun l hl => h.known l (hsub l hl), fun l hl => ?_,
    fun l hl d hd => ?_, fun pairs hp l hl other hother hhold => ?_,
    fun pairs hp => (pairwise_cons.mp (h.apart pairs hp)).2, fun hrest => ?_⟩
  · rw [Function.update_of_ne (hne l hl)]
    exact h.pending l (hsub l hl)
  · have hint := h.integrated l (hsub l hl) d hd
    have hd' : d ≠ laneId := by
      rintro rfl
      rw [hpending] at hint
      simp at hint
    rw [Function.update_of_ne hd']
    exact hint
  · by_cases heq : other = laneId
    · subst heq
      rw [inConflict_comm]
      exact (pairwise_cons.mp (h.apart pairs hp)).1 l hl
    · rw [Function.update_of_ne heq] at hhold
      exact h.free pairs hp l (hsub l hl) other hother hhold
  · have hroom := h.room (cons_ne_nil _ _)
    have hcount : spec.laneIds.countP
        (fun l => decide ((Function.update lane laneId st l).state = .running)) ≤
        spec.laneIds.countP (fun l => decide ((lane l).state = .running)) + 1 :=
      countP_le_succ spec.laneIds_nodup fun l hl => by rw [Function.update_of_ne hl]
    simp only [length_cons] at hroom
    omega

theorem of_isCandidate {states : LaneStates} {pairs : List (LaneId × LaneId)} {lane : LaneSpec}
    (hmem : (laneId, lane) ∈ spec.lanes)
    (h : isCandidate spec (schedulerStates spec states) pairs laneId lane = true) :
    (states.lane laneId).state = .pending ∧
      (∀ d ∈ spec.dependsOn laneId, (states.lane d).state = .integrated) ∧
      ∀ other ∈ spec.laneIds, (states.lane other).state.isConflictHolding = true →
        inConflict pairs laneId other = false := by
  have hknown : laneId ∈ spec.laneIds := mem_map_of_mem (f := Prod.fst) hmem
  unfold isCandidate at h
  simp only [Bool.and_eq_true, decide_eq_true_eq, all_eq_true, getD_schedulerStates, hknown,
    if_true] at h
  obtain ⟨⟨⟨hpending, -⟩, hdeps⟩, hbusy⟩ := h
  refine ⟨hpending, fun d hd => ?_, fun other hother hhold => ?_⟩
  · rw [WaveSpec.dependsOn_of_mem hmem] at hd
    have hint := hdeps d hd
    split_ifs at hint
    exact hint
  · simp only [Bool.not_eq_true', any_eq_false, mem_filter, schedulerStates, mem_map,
      and_imp, forall_exists_index] at hbusy
    have := hbusy (other, (states.lane other).state) other hother rfl hhold
    simpa using this

theorem of_selected {states : LaneStates} {pairs : List (LaneId × LaneId)} {sorted : List LaneId}
    (hpairs : conflicts spec = .ok pairs)
    (hperm : sorted.Perm ((spec.lanes.filter fun l =>
      isCandidate spec (schedulerStates spec states) pairs l.1 l.2).map Prod.fst))
    (hroom : 0 < width - runningLanes spec states) :
    ReadyLanes spec width states.lane ((selectConflictFree pairs sorted).take
      (width - runningLanes spec states).toNat) := by
  set ready := (selectConflictFree pairs sorted).take (width - runningLanes spec states).toNat
    with hready
  have hsub : ready.Sublist sorted :=
    (take_sublist _ _).trans (selectConflictFree_sublist sorted)
  have hcandidate : ∀ laneId ∈ ready, ∃ lane, (laneId, lane) ∈ spec.lanes ∧
      isCandidate spec (schedulerStates spec states) pairs laneId lane = true := by
    intro laneId hl
    obtain ⟨⟨l, lane⟩, hmem, rfl⟩ := mem_map.mp (hperm.subset (hsub.subset hl))
    exact ⟨lane, (mem_filter.mp hmem).1, (mem_filter.mp hmem).2⟩
  refine ⟨?_, fun l hl => ?_, fun l hl => ?_, fun l hl => ?_, fun pairs' hp l hl => ?_,
    fun pairs' hp => ?_, fun _ => ?_⟩
  · refine (hperm.nodup_iff.mpr ?_).sublist hsub
    exact spec.laneIds_nodup.sublist (filter_sublist.map Prod.fst)
  · obtain ⟨lane, hmem, -⟩ := hcandidate l hl
    exact mem_map_of_mem (f := Prod.fst) hmem
  · obtain ⟨lane, hmem, hc⟩ := hcandidate l hl
    exact (of_isCandidate hmem hc).1
  · obtain ⟨lane, hmem, hc⟩ := hcandidate l hl
    exact (of_isCandidate hmem hc).2.1
  · obtain rfl := Except.ok.inj (hpairs.symm.trans hp)
    obtain ⟨lane, hmem, hc⟩ := hcandidate l hl
    exact (of_isCandidate hmem hc).2.2
  · obtain rfl := Except.ok.inj (hpairs.symm.trans hp)
    exact (selectConflictFree_pairwise sorted).sublist (take_sublist _ _)
  · have hcount : spec.laneIds.countP (fun l => decide ((states.lane l).state = .running)) =
        runningLanes spec states := by
      simp [runningLanes, schedulerStates, countP_map, Function.comp_def]
    have hlen : ready.length ≤ (width - runningLanes spec states).toNat :=
      length_take_le _ _
    rw [hcount]
    omega

theorem of_frontier {states : LaneStates} {ready : List LaneId}
    (h : frontier spec (schedulerStates spec states)
      (some (width - runningLanes spec states)) = .ok ready)
    (hroom : 0 < width - runningLanes spec states) : ReadyLanes spec width states.lane ready := by
  unfold frontier at h
  cases horder : topologicalOrder spec with
  | none =>
    rw [horder] at h
    obtain rfl := Except.ok.inj h
    exact .nil spec width states.lane
  | some order =>
    rw [horder] at h
    obtain ⟨pairs, hpairs, h⟩ := bind_eq_ok.mp h
    obtain rfl := (Except.ok.inj h).symm
    exact of_selected hpairs (perm_insertionSort _ _) hroom

end ReadyLanes

end Workbay.Wave
