import Workbay.Graph.StronglyConnected
import Workbay.Graph.Proofs.VisitProofs

/-!
# Proofs: what a worklist reaches, and the components of two searches
-/

namespace Workbay.Graph

open Relation List

variable {α : Type} [DecidableEq α] {next prev : α → List α}

theorem mem_fresh {seen xs : List α} {y : α} : y ∈ fresh seen xs ↔ y ∈ xs ∧ y ∉ seen := by
  induction xs generalizing seen with
  | nil => simp [fresh]
  | cons x xs ih =>
    rw [fresh]
    split_ifs with hx
    · rw [ih, mem_cons]
      constructor
      · exact fun h => ⟨.inr h.1, h.2⟩
      · rintro ⟨rfl | hin, hnot⟩
        · exact absurd hx hnot
        · exact ⟨hin, hnot⟩
    · rw [mem_cons, ih, mem_cons, mem_append, mem_singleton]
      constructor
      · rintro (rfl | ⟨hin, hnot⟩)
        · exact ⟨.inl rfl, hx⟩
        · exact ⟨.inr hin, fun h => hnot (.inl h)⟩
      · rintro ⟨rfl | hin, hnot⟩
        · exact .inl rfl
        · by_cases hyx : y = x
          · exact .inl hyx
          · exact .inr ⟨hin, fun h => h.elim hnot hyx⟩

theorem nodup_fresh (seen xs : List α) : (fresh seen xs).Nodup := by
  induction xs generalizing seen with
  | nil => exact nodup_nil
  | cons x xs ih =>
    rw [fresh]
    split_ifs
    · exact ih seen
    · refine nodup_cons.mpr ⟨fun hin => ?_, ih _⟩
      exact (mem_fresh.mp hin).2 (by simp)

/-- A step to a vertex that is not seen. -/
def StepOutside (next : α → List α) (seen : List α) (x y : α) : Prop := y ∈ next x ∧ y ∉ seen

omit [DecidableEq α] in
theorem outside_more {seen : List α} (seen' : List α) {w y : α}
    (h : TransGen (StepOutside next seen) w y) :
    y ∈ seen' ∨ TransGen (StepOutside next seen') w y ∨
      ∃ n ∈ seen', n ∉ seen ∧ TransGen (StepOutside next seen') n y := by
  induction h with
  | @single b hstep =>
    by_cases hb : b ∈ seen'
    · exact .inl hb
    · exact .inr (.inl (.single ⟨hstep.1, hb⟩))
  | @tail b c hpath hstep ih =>
    by_cases hc : c ∈ seen'
    · exact .inl hc
    · have hbc : StepOutside next seen' b c := ⟨hstep.1, hc⟩
      rcases ih with hb | hb | ⟨n, hn, hnot, hb⟩
      · have hnot : b ∉ seen := by
          cases hpath with
          | single h => exact h.2
          | tail _ h => exact h.2
        exact .inr (.inr ⟨b, hb, hnot, .single hbc⟩)
      · exact .inr (.inl (hb.tail hbc))
      · exact .inr (.inr ⟨n, hn, hnot, hb.tail hbc⟩)

omit [DecidableEq α] in
theorem outside_mono {seen seen' : List α} (hsub : seen ⊆ seen') {w y : α}
    (h : TransGen (StepOutside next seen') w y) : TransGen (StepOutside next seen) w y :=
  h.lift id fun _ _ hstep => ⟨hstep.1, fun hin => hstep.2 (hsub hin)⟩

theorem length_unseen_append (domain : List α) {seen new : List α} (hnew : new.Nodup)
    (hin : ∀ y ∈ new, y ∈ domain ∧ y ∉ seen) :
    new.length + (domain.filter fun u => u ∉ seen ++ new).length ≤
      (domain.filter fun u => u ∉ seen).length := by
  have hsplit := length_eq_length_filter_add (l := domain.filter fun u => u ∉ seen)
    fun u => decide (u ∈ new)
  have hkept : (domain.filter fun u => u ∉ seen).filter (fun u => !decide (u ∈ new)) =
      domain.filter fun u => u ∉ seen ++ new := by
    rw [filter_filter]
    refine filter_congr fun u _ => ?_
    simp [Bool.and_comm]
  have hle : new.length ≤
      ((domain.filter fun u => u ∉ seen).filter fun u => decide (u ∈ new)).length := by
    refine (subperm_of_subset hnew fun y hy => ?_).length_le
    obtain ⟨hdom, hnot⟩ := hin y hy
    simp [hdom, hnot, hy]
  rw [hkept] at hsplit
  omega

/-- What is seen at the end was seen, or a path outside of that leads to it from the worklist; what is
taken was to be taken or was seen on the way. -/
theorem flood_spec {push : List α → List α → List α}
    (hpush : ∀ new work, (push new work).Perm (new ++ work)) {next : α → List α} {domain : List α}
    (hdomain : ∀ x y, y ∈ next x → y ∈ domain) :
    ∀ (fuel : Nat) (seen work taken : List α),
      work.length + (domain.filter fun u => u ∉ seen).length ≤ fuel →
      ∀ y, (y ∈ (flood push next fuel seen work taken).1 ↔
          y ∈ seen ∨ ∃ w ∈ work, TransGen (StepOutside next seen) w y) ∧
        (y ∈ (flood push next fuel seen work taken).2 ↔
          y ∈ taken ∨ y ∈ work ∨ ∃ w ∈ work, TransGen (StepOutside next seen) w y) := by
  intro fuel
  induction fuel with
  | zero =>
    intro seen work taken hfuel y
    obtain rfl : work = [] := length_eq_zero_iff.mp (by omega)
    simp [flood]
  | succ fuel ih =>
    intro seen work taken hfuel y
    cases work with
    | nil => simp [flood]
    | cons x work =>
      have hnew : ∀ y, y ∈ fresh seen (next x) ↔ StepOutside next seen x y := fun y => mem_fresh
      have hmem : ∀ y, y ∈ push (fresh seen (next x)) work ↔
          StepOutside next seen x y ∨ y ∈ work := by
        intro y
        rw [(hpush _ _).mem_iff, mem_append, hnew]
      have hless := length_unseen_append domain (nodup_fresh seen (next x))
        fun y hy => ⟨hdomain x y (mem_fresh.mp hy).1, (mem_fresh.mp hy).2⟩
      have hlen : (push (fresh seen (next x)) work).length =
          (fresh seen (next x)).length + work.length := by
        rw [(hpush _ _).length_eq, length_append]
      simp only [length_cons] at hfuel
      obtain ⟨hseen, htaken⟩ := ih (seen ++ fresh seen (next x)) (push (fresh seen (next x)) work)
        (taken ++ [x]) (by omega) y
      -- a path outside of what is seen now passes what the step marks last, or nothing of it
      have hpath : (y ∈ fresh seen (next x) ∨ ∃ w ∈ push (fresh seen (next x)) work,
            TransGen (StepOutside next (seen ++ fresh seen (next x))) w y) ↔
          ∃ w ∈ x :: work, TransGen (StepOutside next seen) w y := by
        constructor
        · rintro (hy | ⟨w, hw, hwy⟩)
          · exact ⟨x, mem_cons_self .., .single ((hnew y).mp hy)⟩
          · have hwy' := outside_mono (subset_append_left _ _) hwy
            rcases (hmem w).mp hw with hxw | hw
            · exact ⟨x, mem_cons_self .., .head hxw hwy'⟩
            · exact ⟨w, mem_cons_of_mem _ hw, hwy'⟩
        · rintro ⟨w, hw, hwy⟩
          have hlast : ∀ n, n ∈ seen ++ fresh seen (next x) → n ∉ seen → n ∈ fresh seen (next x) :=
            fun n hn hnot => (mem_append.mp hn).resolve_left hnot
          have hy : y ∉ seen := by
            cases hwy with
            | single h => exact h.2
            | tail _ h => exact h.2
          rcases outside_more (seen ++ fresh seen (next x)) hwy with h | h | ⟨n, hn, hnot, h⟩
          · exact .inl (hlast y h hy)
          · rcases mem_cons.mp hw with rfl | hw
            · -- the first step from `x` is marked, so the path cannot avoid what is marked
              obtain ⟨b, hb, -⟩ := TransGen.head'_iff.mp h
              exact absurd (mem_append_right _ (mem_fresh.mpr
                ⟨hb.1, fun hin => hb.2 (mem_append_left _ hin)⟩)) hb.2
            · exact .inr ⟨w, (hmem w).mpr (.inr hw), h⟩
          · exact .inr ⟨n, (hmem n).mpr (.inl ((hnew n).mp (hlast n hn hnot))), h⟩
      refine ⟨?_, ?_⟩
      · rw [flood, hseen, mem_append, or_assoc, hpath]
      · rw [flood, htaken, ← hpath, hmem, mem_append, mem_singleton, mem_cons, hnew]
        constructor
        · rintro ((h | h) | (h | h) | h)
          · exact .inl h
          · exact .inr (.inl (.inl h))
          · exact .inr (.inr (.inl h))
          · exact .inr (.inl (.inr h))
          · exact .inr (.inr (.inr h))
        · rintro (h | (h | h) | h | h)
          · exact .inl (.inl h)
          · exact .inl (.inr h)
          · exact .inr (.inl (.inr h))
          · exact .inr (.inl (.inl h))
          · exact .inr (.inr h)

theorem nodup_flood {push : List α → List α → List α}
    (hpush : ∀ new work, (push new work).Perm (new ++ work)) :
    ∀ (fuel : Nat) (seen work taken : List α), (taken ++ work).Nodup → taken ++ work ⊆ seen →
      (flood push next fuel seen work taken).2.Nodup := by
  intro fuel
  induction fuel with
  | zero => exact fun seen work taken hnodup _ => (nodup_append.mp hnodup).1
  | succ fuel ih =>
    intro seen work taken hnodup hsub
    cases work with
    | nil => exact (nodup_append.mp hnodup).1
    | cons x work =>
      have hperm : (taken ++ [x] ++ push (fresh seen (next x)) work).Perm
          (fresh seen (next x) ++ (taken ++ x :: work)) := by
        refine ((hpush _ _).append_left _).trans ?_
        rw [append_assoc, singleton_append]
        refine (List.Perm.append_left taken (perm_middle.symm)).trans ?_
        exact perm_append_comm_assoc taken (fresh seen (next x)) (x :: work)
      rw [flood]
      refine ih _ _ _ (hperm.nodup_iff.mpr ?_) fun y hy => ?_
      · refine nodup_append.mpr ⟨nodup_fresh _ _, hnodup, ?_⟩
        rintro a ha b hb rfl
        exact (mem_fresh.mp ha).2 (hsub hb)
      · rcases mem_append.mp (hperm.mem_iff.mp hy) with hy | hy
        · exact mem_append_right _ hy
        · exact mem_append_left _ (hsub hy)

/-! ## The order in which vertices are left -/

/-- The successors of every vertex that is to be left are visited, or stand above it. -/
def Settled (next : α → List α) (visited : List α) : List (α × Bool) → List α → Prop
  | [], _ => True
  | (x, false) :: stack, above => Settled next visited stack (x :: above)
  | (x, true) :: stack, above =>
    (∀ y ∈ next x, y ∈ visited ∨ y ∈ above) ∧ Settled next visited stack above

omit [DecidableEq α] in
theorem Settled.mono {visited visited' : List α} (hsub : visited ⊆ visited') :
    ∀ {stack : List (α × Bool)} {above above' : List α}, Settled next visited stack above →
      (∀ y ∈ above, y ∈ visited' ∨ y ∈ above') → Settled next visited' stack above' := by
  intro stack
  induction stack with
  | nil => exact fun _ _ => trivial
  | cons entry stack ih =>
    obtain ⟨x, leaving⟩ := entry
    intro above above' h habove
    cases leaving with
    | false =>
      refine ih (show Settled next visited stack (x :: above) from h) fun y hy => ?_
      rcases mem_cons.mp hy with rfl | hy
      · exact .inr (mem_cons_self ..)
      · exact (habove y hy).imp_right (mem_cons_of_mem x)
    | true =>
      obtain ⟨hx, hrest⟩ := h
      refine ⟨fun y hy => ?_, ih hrest habove⟩
      rcases hx y hy with hin | hin
      · exact .inl (hsub hin)
      · exact habove y hin

omit [DecidableEq α] in
theorem settled_push {visited : List α} (stack : List (α × Bool)) :
    ∀ (new above : List α), Settled next visited (new.map (fun y => (y, false)) ++ stack) above ↔
      Settled next visited stack (new.reverse ++ above) := by
  intro new
  induction new with
  | nil => exact fun above => Iff.rfl
  | cons y new ih =>
    intro above
    rw [reverse_cons, append_assoc, singleton_append]
    exact ih (y :: above)

/-- What holds while vertices are visited and left. -/
structure Leaving (next : α → List α) (visited finish : List α) (stack : List (α × Bool)) : Prop where
  visited_iff : ∀ x, x ∈ visited ↔ x ∈ finish ∨ (x, true) ∈ stack
  apart : ∀ x, (x, true) ∈ stack → x ∉ finish
  nodup : finish.Nodup
  once : stack.Pairwise fun above below => above.2 = true → below ≠ above
  /-- A vertex that is to be left reaches what stands above it. -/
  path : stack.Pairwise fun above below =>
    below.2 = true → ReflTransGen (Step next) below.1 above.1
  settled : Settled next visited stack []
  closed : ∀ x ∈ finish, ∀ y ∈ next x, y ∈ visited
  /-- A vertex that is to be left reaches all that was left since an edge came to it. -/
  pending : ∀ z ∈ finish, ∀ y ∈ next z, (y, true) ∈ stack → ∀ x ∈ finish,
    finish.idxOf z ≤ finish.idxOf x → ReflTransGen (Step next) y x
  /-- An edge to a vertex that is left later: the latter reaches all that was left in between. -/
  between : ∀ z ∈ finish, ∀ y ∈ next z, y ∈ finish → ∀ x ∈ finish,
    finish.idxOf z ≤ finish.idxOf x → finish.idxOf x ≤ finish.idxOf y →
    ReflTransGen (Step next) y x

variable {visited finish : List α} {stack : List (α × Bool)} {x : α}

theorem mem_idxOf_append {finish : List α} {z x : α} (hx : x ∈ finish ++ [z])
    (hnot : x ≠ z) : x ∈ finish := by
  rcases mem_append.mp hx with hx | hx
  · exact hx
  · exact absurd (mem_singleton.mp hx) hnot

theorem Leaving.leave (h : Leaving next visited finish ((x, true) :: stack)) :
    Leaving next visited (finish ++ [x]) stack := by
  have hx : x ∉ finish := h.apart x (mem_cons_self ..)
  have honce := pairwise_cons.mp h.once
  have hpath := pairwise_cons.mp h.path
  have hrest : (x, true) ∉ stack := fun hin => honce.1 (x, true) hin rfl rfl
  obtain ⟨htop, hsettled⟩ : (∀ y ∈ next x, y ∈ visited ∨ y ∈ []) ∧ Settled next visited stack [] :=
    h.settled
  have hlast : (finish ++ [x]).idxOf x = finish.length := by
    rw [idxOf_append_of_notMem hx, idxOf_cons_self, Nat.add_zero]
  have hold : ∀ y ∈ finish, (finish ++ [x]).idxOf y = finish.idxOf y :=
    fun y hy => idxOf_append_of_mem hy
  have hbefore : ∀ y ∈ finish ++ [x], (finish ++ [x]).idxOf y < finish.length → y ∈ finish := by
    intro y hy hlt
    refine mem_idxOf_append hy ?_
    rintro rfl
    omega
  refine ⟨fun y => ?_, fun y hy => ?_, ?_, honce.2, hpath.2, hsettled, ?_, ?_, ?_⟩
  · rw [h.visited_iff, mem_append, mem_singleton, mem_cons, or_assoc]
    simp [Prod.mk.injEq]
  · rw [mem_append, mem_singleton]
    rintro (hin | rfl)
    · exact h.apart y (mem_cons_of_mem _ hy) hin
    · exact hrest hy
  · refine nodup_append.mpr ⟨h.nodup, pairwise_singleton _ x, ?_⟩
    rintro a ha b hb rfl
    exact hx (mem_singleton.mp hb ▸ ha)
  · intro z hz y hy
    rcases mem_append.mp hz with hz | hz
    · exact h.closed z hz y hy
    · rw [mem_singleton.mp hz] at hy
      exact (htop y hy).resolve_right (not_mem_nil)
  · intro z hz y hy hgrey w hw hle
    rcases mem_append.mp hw with hw' | hw'
    · have hwlt := idxOf_lt_length_of_mem hw'
      rw [hold w hw'] at hle
      have hz' := hbefore z hz (by omega)
      rw [hold z hz'] at hle
      exact h.pending z hz' y hy (mem_cons_of_mem _ hgrey) w hw' hle
    · rw [mem_singleton.mp hw']
      exact hpath.1 (y, true) hgrey rfl
  · intro z hz y hy hyin w hw hzw hwy
    rcases mem_append.mp hyin with hy' | hy'
    · have hylt := idxOf_lt_length_of_mem hy'
      rw [hold y hy'] at hwy
      have hw' := hbefore w hw (by omega)
      rw [hold w hw'] at hzw hwy
      have hz' := hbefore z hz (by omega)
      rw [hold z hz'] at hzw
      exact h.between z hz' y hy hy' w hw' hzw hwy
    · obtain rfl := mem_singleton.mp hy'
      by_cases hwy' : w = y
      · rw [hwy']
      · have hw' := mem_idxOf_append hw hwy'
        have hwlt := idxOf_lt_length_of_mem hw'
        rw [hold w hw'] at hzw
        have hz' := hbefore z hz (by omega)
        rw [hold z hz'] at hzw
        exact h.pending z hz' y hy (mem_cons_self ..) w hw' hzw

theorem Leaving.skip (h : Leaving next visited finish ((x, false) :: stack)) (hx : x ∈ visited) :
    Leaving next visited finish stack := by
  refine ⟨fun y => ?_, fun y hy => h.apart y (mem_cons_of_mem _ hy), h.nodup,
    (pairwise_cons.mp h.once).2, (pairwise_cons.mp h.path).2, ?_, h.closed,
    fun z hz y hy hgrey => h.pending z hz y hy (mem_cons_of_mem _ hgrey), h.between⟩
  · rw [h.visited_iff, mem_cons]
    simp [Prod.mk.injEq]
  · refine Settled.mono (List.Subset.refl _)
      (show Settled next visited stack [x] from h.settled) fun y hy => ?_
    rw [mem_singleton.mp hy]
    exact .inl hx

theorem Leaving.visit (h : Leaving next visited finish ((x, false) :: stack)) (hx : x ∉ visited) :
    Leaving next (visited ++ [x]) finish
      ((((next x).filter fun y => y ∉ visited ++ [x]).map fun y => (y, false)).reverse ++
        (x, true) :: stack) := by
  have hpath := pairwise_cons.mp h.path
  have hgrey : ∀ y, (y, true) ∈ (((next x).filter fun y => y ∉ visited ++ [x]).map fun y =>
      (y, false)).reverse ++ (x, true) :: stack ↔ y = x ∨ (y, true) ∈ stack := by
    intro y
    simp [Prod.mk.injEq]
  have hxstack : (x, true) ∉ stack := fun hin =>
    hx ((h.visited_iff x).mpr (.inr (mem_cons_of_mem _ hin)))
  have hxfinish : x ∉ finish := fun hin => hx ((h.visited_iff x).mpr (.inl hin))
  have hpushed : ∀ e ∈ (((next x).filter fun y => y ∉ visited ++ [x]).map fun y =>
      (y, false)).reverse, e.2 = false ∧ Step next x e.1 := by
    intro e he
    obtain ⟨y, hy, rfl⟩ := mem_map.mp (mem_reverse.mp he)
    exact ⟨rfl, (mem_filter.mp hy).1⟩
  refine ⟨fun y => ?_, fun y hy => ?_, h.nodup, ?_, ?_, ?_, fun z hz y hy =>
    mem_append_left _ (h.closed z hz y hy), ?_, h.between⟩
  · rw [hgrey, mem_append, mem_singleton, h.visited_iff, mem_cons]
    simp only [Prod.mk.injEq, Bool.true_eq_false, and_false, false_or]
    constructor
    · rintro ((h | h) | h)
      · exact .inl h
      · exact .inr (.inr h)
      · exact .inr (.inl h)
    · rintro (h | h | h)
      · exact .inl (.inl h)
      · exact .inr h
      · exact .inl (.inr h)
  · rcases (hgrey y).mp hy with rfl | hin
    · exact hxfinish
    · exact h.apart y (mem_cons_of_mem _ hin)
  · refine pairwise_append.mpr ⟨?_, pairwise_cons.mpr ⟨?_, ?_⟩, ?_⟩
    · refine pairwise_of_forall_mem_list fun a ha b _ hleave => ?_
      rw [(hpushed a ha).1] at hleave
      cases hleave
    · rintro b hb - rfl
      exact hxstack hb
    · exact (pairwise_cons.mp h.once).2
    · intro a ha b _ hleave
      rw [(hpushed a ha).1] at hleave
      cases hleave
  · refine pairwise_append.mpr ⟨?_, pairwise_cons.mpr ⟨?_, hpath.2⟩, ?_⟩
    · refine pairwise_of_forall_mem_list fun a _ b hb hleave => ?_
      rw [(hpushed b hb).1] at hleave
      cases hleave
    · exact fun b hb hleave => hpath.1 b hb hleave
    · intro a ha b hb hleave
      rcases mem_cons.mp hb with rfl | hb
      · exact .single (hpushed a ha).2
      · exact (hpath.1 b hb hleave).tail (hpushed a ha).2
  · rw [← map_reverse, settled_push, reverse_reverse, append_nil]
    have hrest : Settled next visited stack [x] := h.settled
    refine ⟨fun y hy => ?_, hrest.mono (subset_append_left _ _) fun y hy => ?_⟩
    · by_cases hin : y ∈ visited ++ [x]
      · exact .inl hin
      · exact .inr (mem_filter.mpr ⟨hy, by simpa using hin⟩)
    · exact .inl (mem_append_right _ hy)
  · intro z hz y hy hin w hw hle
    rcases (hgrey y).mp hin with rfl | hin
    · exact absurd (h.closed z hz y hy) hx
    · exact h.pending z hz y hy (mem_cons_of_mem _ hin) w hw hle

/-- The vertices that are not visited, with their successors. -/
def toVisit (next : α → List α) (vertices visited : List α) : Nat :=
  ((vertices.filter fun u => u ∉ visited).map fun u => 1 + (next u).length).sum

theorem toVisit_le (next : α → List α) (vertices visited : List α) :
    toVisit next vertices visited ≤ vertices.length + degreeSum next vertices := by
  unfold toVisit degreeSum
  induction vertices with
  | nil => exact Nat.le_refl _
  | cons u us ih =>
    by_cases hu : u ∈ visited
    · rw [filter_cons_of_neg (by simpa using hu)]
      simp only [length_cons, map_cons, sum_cons]
      omega
    · rw [filter_cons_of_pos (by simpa using hu)]
      simp only [length_cons, map_cons, sum_cons]
      omega

theorem toVisit_visit (next : α → List α) {vertices : List α} (hx : x ∉ visited) (hin : x ∈ vertices) :
    toVisit next vertices (visited ++ [x]) + (1 + (next x).length) ≤
      toVisit next vertices visited := by
  refine sum_pending_le (fun u => 1 + (next u).length) (fun u hu => ?_) ?_ ?_ hin
  · simp only [mem_append, not_or, decide_eq_true_eq] at hu ⊢
    exact hu.1
  · simpa using hx
  · simp

theorem leaveFrom_spec {vertices : List α} (hvertices : ∀ x, ∀ y ∈ next x, y ∈ vertices) :
    ∀ (fuel : Nat) (visited finish : List α) (stack : List (α × Bool)),
      stack.length + toVisit next vertices visited ≤ fuel → Leaving next visited finish stack →
      visited ⊆ vertices → (∀ e ∈ stack, e.1 ∈ vertices) →
      Leaving next (leaveFrom next fuel visited finish stack).1
          (leaveFrom next fuel visited finish stack).2 [] ∧
        (leaveFrom next fuel visited finish stack).1 ⊆ vertices ∧
        visited ⊆ (leaveFrom next fuel visited finish stack).1 ∧
        ∀ e ∈ stack, e.1 ∈ (leaveFrom next fuel visited finish stack).1 := by
  intro fuel
  induction fuel with
  | zero =>
    intro visited finish stack hfuel h hvisited _
    obtain rfl : stack = [] := length_eq_zero_iff.mp (by omega)
    exact ⟨h, hvisited, List.Subset.refl _, by simp⟩
  | succ fuel ih =>
    intro visited finish stack hfuel h hvisited hstack
    cases stack with
    | nil => exact ⟨h, hvisited, List.Subset.refl _, by simp⟩
    | cons e stack =>
      obtain ⟨x, leaving⟩ := e
      have hrest : ∀ e ∈ stack, e.1 ∈ vertices := fun e he => hstack e (mem_cons_of_mem _ he)
      have hxin : x ∈ vertices := hstack (x, leaving) (mem_cons_self ..)
      simp only [length_cons] at hfuel
      cases leaving with
      | true =>
        have hx : x ∈ visited := (h.visited_iff x).mpr (.inr (mem_cons_self ..))
        rw [leaveFrom]
        obtain ⟨h1, h2, h3, h4⟩ := ih visited (finish ++ [x]) stack (by omega) h.leave hvisited hrest
        refine ⟨h1, h2, h3, fun e he => ?_⟩
        rcases mem_cons.mp he with rfl | he
        · exact h3 hx
        · exact h4 e he
      | false =>
        rw [leaveFrom]
        split_ifs with hx
        · obtain ⟨h1, h2, h3, h4⟩ := ih visited finish stack (by omega) (h.skip hx) hvisited hrest
          refine ⟨h1, h2, h3, fun e he => ?_⟩
          rcases mem_cons.mp he with rfl | he
          · exact h3 hx
          · exact h4 e he
        · have hless := toVisit_visit next hx hxin
          have hpushed := length_filter_le (fun y => decide (y ∉ visited ++ [x])) (next x)
          obtain ⟨h1, h2, h3, h4⟩ := ih (visited ++ [x]) finish
            ((((next x).filter fun y => y ∉ visited ++ [x]).map fun y => (y, false)).reverse ++
              (x, true) :: stack) (by
                simp only [length_append, length_reverse, length_map,
                  length_cons]
                omega) (h.visit hx)
            (append_subset.mpr ⟨hvisited, by simpa using hxin⟩) (fun e he => by
              rcases mem_append.mp he with he | he
              · obtain ⟨y, hy, rfl⟩ := mem_map.mp (mem_reverse.mp he)
                exact hvertices x y (mem_filter.mp hy).1
              · rcases mem_cons.mp he with rfl | he
                · exact hxin
                · exact hrest e he)
          refine ⟨h1, h2, fun y hy => h3 (mem_append_left _ hy), fun e he => ?_⟩
          rcases mem_cons.mp he with rfl | he
          · exact h3 (mem_append_right _ (mem_singleton_self x))
          · exact h4 e (mem_append_right _ (mem_cons_of_mem _ he))

theorem Leaving.start (h : Leaving next visited finish []) (x : α) :
    Leaving next visited finish [(x, false)] := by
  refine ⟨fun y => ?_, fun y hy => ?_, h.nodup, pairwise_singleton _ _,
    pairwise_singleton _ _, trivial, h.closed, fun z _ y _ hgrey => ?_, h.between⟩
  · rw [h.visited_iff]
    simp
  · simp at hy
  · simp at hgrey

theorem leaving_nil : Leaving next [] [] [] :=
  ⟨by simp, by simp, nodup_nil, List.Pairwise.nil, List.Pairwise.nil, trivial, by simp, by simp,
    by simp⟩

/-- The vertices are left once each, in an order in which the end of an edge to a later vertex reaches
all that is left in between. -/
theorem leaveOrder_spec {vertices : List α} (hvertices : ∀ x, ∀ y ∈ next x, y ∈ vertices) :
    (leaveOrder next vertices).Nodup ∧ (∀ x, x ∈ leaveOrder next vertices ↔ x ∈ vertices) ∧
      ∀ z y x, y ∈ next z → z ∈ vertices → x ∈ vertices →
        (leaveOrder next vertices).idxOf z ≤ (leaveOrder next vertices).idxOf x →
        (leaveOrder next vertices).idxOf x ≤ (leaveOrder next vertices).idxOf y →
        ReflTransGen (Step next) y x := by
  have hfold : ∀ (starts : List α) (state : List α × List α), starts ⊆ vertices →
      Leaving next state.1 state.2 [] → state.1 ⊆ vertices →
      Leaving next (starts.foldl (fun state start =>
          leaveFrom next (1 + vertices.length + degreeSum next vertices) state.1 state.2
            [(start, false)]) state).1
        (starts.foldl (fun state start =>
          leaveFrom next (1 + vertices.length + degreeSum next vertices) state.1 state.2
            [(start, false)]) state).2 [] ∧
      (starts.foldl (fun state start =>
          leaveFrom next (1 + vertices.length + degreeSum next vertices) state.1 state.2
            [(start, false)]) state).1 ⊆ vertices ∧
      ∀ x, x ∈ state.1 ∨ x ∈ starts → x ∈ (starts.foldl (fun state start =>
          leaveFrom next (1 + vertices.length + degreeSum next vertices) state.1 state.2
            [(start, false)]) state).1 := by
    intro starts
    induction starts with
    | nil =>
      intro state _ h hin
      exact ⟨h, hin, fun x hx => hx.resolve_right (not_mem_nil)⟩
    | cons start starts ih =>
      intro state hsub h hin
      have hle := toVisit_le next vertices state.1
      obtain ⟨h1, h2, h3, h4⟩ := leaveFrom_spec hvertices
        (1 + vertices.length + degreeSum next vertices) state.1 state.2 [(start, false)]
        (by simp only [length_singleton]; omega) (h.start start) hin (by
          intro e he
          rw [mem_singleton.mp he]
          exact hsub (mem_cons_self ..))
      obtain ⟨g1, g2, g3⟩ := ih _ (fun x hx => hsub (mem_cons_of_mem _ hx)) h1 h2
      rw [foldl_cons]
      refine ⟨g1, g2, fun x hx => ?_⟩
      rcases hx with hx | hx
      · exact g3 x (.inl (h3 hx))
      · rcases mem_cons.mp hx with rfl | hx
        · exact g3 x (.inl (h4 (x, false) (mem_singleton_self _)))
        · exact g3 x (.inr hx)
  obtain ⟨h1, h2, h3⟩ := hfold vertices ([], []) (List.Subset.refl _) leaving_nil (by simp)
  have hmem : ∀ x, x ∈ leaveOrder next vertices ↔ x ∈ vertices := by
    intro x
    have hiff := (h1.visited_iff x)
    simp only [not_mem_nil, or_false] at hiff
    constructor
    · exact fun hx => h2 (hiff.mpr hx)
    · exact fun hx => hiff.mp (h3 x (.inr hx))
  refine ⟨h1.nodup, hmem, fun z y x hy hz hx => ?_⟩
  exact h1.between z ((hmem z).mpr hz) y hy ((hmem y).mpr (hvertices z y hy)) x ((hmem x).mpr hx)

omit [DecidableEq α] in
/-- Two vertices that reach each other. -/
def SameComponent (next : α → List α) (x y : α) : Prop :=
  ReflTransGen (Step next) x y ∧ ReflTransGen (Step next) y x

omit [DecidableEq α] in
theorem SameComponent.symm {y : α} (h : SameComponent next x y) : SameComponent next y x := ⟨h.2, h.1⟩

omit [DecidableEq α] in
theorem SameComponent.trans {y z : α} (h : SameComponent next x y) (h' : SameComponent next y z) :
    SameComponent next x z := ⟨h.1.trans h'.1, h'.2.trans h.2⟩

/-- A path to `s` that no vertex left after `s` is on: `s` reaches all that is left from the start of the
path up to `s`. -/
theorem reach_back {vertices : List α} (hvertices : ∀ x, ∀ y ∈ next x, y ∈ vertices) {s p : α}
    (hs : s ∈ vertices)
    (hpath : ReflTransGen (fun a b => b ∈ next a ∧ a ∈ vertices ∧
      (leaveOrder next vertices).idxOf b ≤ (leaveOrder next vertices).idxOf s) p s) :
    ∀ x ∈ vertices, (leaveOrder next vertices).idxOf p ≤ (leaveOrder next vertices).idxOf x →
      (leaveOrder next vertices).idxOf x ≤ (leaveOrder next vertices).idxOf s →
      ReflTransGen (Step next) s x := by
  obtain ⟨-, hmem, hbetween⟩ := leaveOrder_spec hvertices
  induction hpath using ReflTransGen.head_induction_on with
  | refl =>
    intro x hx hle hle'
    have heq : (leaveOrder next vertices).idxOf s = (leaveOrder next vertices).idxOf x := by omega
    rw [(idxOf_inj ((hmem s).mpr hs)).mp heq]
  | @head p p' hstep _ ih =>
    obtain ⟨hedge, hp, hlate⟩ := hstep
    intro x hx hle hle'
    by_cases hcross : (leaveOrder next vertices).idxOf x ≤ (leaveOrder next vertices).idxOf p'
    · have hp' : p' ∈ vertices := hvertices p p' hedge
      exact (ih p' hp' (Nat.le_refl _) hlate).trans (hbetween p p' x hedge hp hx hle hcross)
    · exact ih x hx (by omega) hle'

omit [DecidableEq α] in
theorem onTop_perm (new work : List α) : (onTop new work).Perm (new ++ work) :=
  (reverse_perm new).append_right work

omit [DecidableEq α] in
theorem atEnd_perm (new work : List α) : (atEnd new work).Perm (new ++ work) := perm_append_comm

/-- What is found so far: components of the graph, with every vertex of them. -/
structure Collected (next : α → List α) (vertices : List α) (state : List α × List (List α)) :
    Prop where
  assigned : ∀ x, x ∈ state.1 ↔ ∃ c ∈ state.2, x ∈ c
  inside : state.1 ⊆ vertices
  component : ∀ c ∈ state.2, ∃ x ∈ vertices, ∀ y, y ∈ c ↔ SameComponent next x y
  nodup : state.2.flatten.Nodup

omit [DecidableEq α] in
theorem Collected.closed {vertices : List α} {state : List α × List (List α)}
    (h : Collected next vertices state) {y : α} (hx : x ∈ state.1) (hxy : SameComponent next x y) :
    y ∈ state.1 := by
  obtain ⟨c, hc, hin⟩ := (h.assigned x).mp hx
  obtain ⟨r, -, hr⟩ := h.component c hc
  exact (h.assigned y).mpr ⟨c, hc, (hr y).mpr (((hr x).mp hin).trans hxy)⟩

section

variable {vertices : List α} (hvertices : ∀ x, ∀ y ∈ next x, y ∈ vertices)
  (hprev : ∀ x y, y ∈ prev x ↔ x ∈ next y ∧ y ∈ vertices)

include hvertices hprev in
theorem outside_iff_sameComponent {state : List α × List (List α)} {s : α}
    (h : Collected next vertices state) (hs : s ∈ vertices) (hnew : s ∉ state.1)
    (hlate : ∀ x ∈ vertices, x ∉ state.1 →
      (leaveOrder next vertices).idxOf x ≤ (leaveOrder next vertices).idxOf s) (y : α) :
    (y = s ∨ TransGen (StepOutside prev (state.1 ++ [s])) s y) ↔ SameComponent next s y := by
  constructor
  · rintro (rfl | hpath)
    · exact ⟨.refl, .refl⟩
    · have hback : y ∈ vertices ∧ y ∉ state.1 ∧ ReflTransGen (fun a b => b ∈ next a ∧ a ∈ vertices ∧
          (leaveOrder next vertices).idxOf b ≤ (leaveOrder next vertices).idxOf s) y s := by
        induction hpath with
        | single hstep =>
          obtain ⟨hedge, hin⟩ := (hprev _ _).mp hstep.1
          refine ⟨hin, fun hold => hstep.2 (mem_append_left _ hold), .single ?_⟩
          exact ⟨hedge, hin, Nat.le_refl _⟩
        | tail _ hstep ih =>
          obtain ⟨hedge, hin⟩ := (hprev _ _).mp hstep.1
          obtain ⟨hb, hbnew, hpath⟩ := ih
          refine ⟨hin, fun hold => hstep.2 (mem_append_left _ hold), .head ?_ hpath⟩
          exact ⟨hedge, hin, hlate _ hb hbnew⟩
      obtain ⟨hy, hynew, hpath'⟩ := hback
      refine ⟨reach_back hvertices hs hpath' y hy (Nat.le_refl _) (hlate y hy hynew), ?_⟩
      exact hpath'.lift id fun a b hab => hab.1
  · rintro ⟨hforth, hback⟩
    induction hback using ReflTransGen.head_induction_on with
    | refl => exact .inl rfl
    | @head y y' hstep hrest ih =>
      by_cases hys : y = s
      · exact .inl hys
      · have hy : y ∈ vertices := by
          cases hforth with
          | refl => exact absurd rfl hys
          | tail _ hlast => exact hvertices _ _ hlast
        have hsame : SameComponent next s y := ⟨hforth, .head hstep hrest⟩
        have hynew : y ∉ state.1 ++ [s] := by
          rw [mem_append, mem_singleton, not_or]
          exact ⟨fun hold => hnew (h.closed hold hsame.symm), hys⟩
        have hout : StepOutside prev (state.1 ++ [s]) y' y := ⟨(hprev y' y).mpr ⟨hstep, hy⟩, hynew⟩
        rcases ih (hforth.tail hstep) with rfl | hpath
        · exact .inr (.single hout)
        · exact .inr (hpath.tail hout)

include hvertices hprev in
/-- One start adds its component, if it has none. -/
theorem Collected.step {state : List α × List (List α)} {s : α}
    (h : Collected next vertices state) (hs : s ∈ vertices)
    (hlate : ∀ x ∈ vertices, x ∉ state.1 →
      (leaveOrder next vertices).idxOf x ≤ (leaveOrder next vertices).idxOf s) :
    Collected next vertices (collect prev (1 + vertices.length) state s) ∧
      s ∈ (collect prev (1 + vertices.length) state s).1 ∧
      state.1 ⊆ (collect prev (1 + vertices.length) state s).1 := by
  by_cases hnew : s ∈ state.1
  · rw [collect, if_pos hnew]
    exact ⟨h, hnew, List.Subset.refl _⟩
  · have hspec := flood_spec onTop_perm (show ∀ x y, y ∈ prev x → y ∈ vertices from
      fun x y hy => ((hprev x y).mp hy).2) (1 + vertices.length) (state.1 ++ [s]) [s] [] (by
        have hle := length_filter_le (fun u => decide (u ∉ state.1 ++ [s])) vertices
        simp only [length_singleton]
        omega)
    have hcomp := outside_iff_sameComponent hvertices hprev h hs hnew hlate
    have hseen : ∀ y, y ∈ (flood onTop prev (1 + vertices.length) (state.1 ++ [s]) [s] []).1 ↔
        y ∈ state.1 ∨ SameComponent next s y := by
      intro y
      rw [(hspec y).1, ← hcomp, mem_append, mem_singleton, or_assoc]
      simp only [mem_singleton, exists_eq_left]
    have htaken : ∀ y, y ∈ (flood onTop prev (1 + vertices.length) (state.1 ++ [s]) [s] []).2 ↔
        SameComponent next s y := by
      intro y
      rw [(hspec y).2, ← hcomp, mem_singleton]
      simp only [not_mem_nil, false_or, mem_singleton, exists_eq_left]
    rw [collect, if_neg hnew]
    refine ⟨⟨fun x => ?_, fun x hx => ?_, fun c hc => ?_, ?_⟩, ?_, fun x hx => ?_⟩
    · rw [hseen, h.assigned]
      simp only [mem_append, mem_singleton, or_and_right, exists_or, exists_eq_left, htaken]
    · rcases (hseen x).mp hx with hx | hx
      · exact h.inside hx
      · rcases ReflTransGen.cases_tail hx.1 with rfl | ⟨b, -, hstep⟩
        · exact hs
        · exact hvertices b x hstep
    · rcases mem_append.mp hc with hc | hc
      · exact h.component c hc
      · rw [mem_singleton.mp hc]
        exact ⟨s, hs, htaken⟩
    · rw [flatten_append, flatten_singleton]
      refine nodup_append.mpr ⟨h.nodup, nodup_flood onTop_perm _ _ _ _ (by simp) (by simp), ?_⟩
      rintro a ha b hb rfl
      obtain ⟨c, hc, hac⟩ := mem_flatten.mp ha
      have hold : a ∈ state.1 := (h.assigned a).mpr ⟨c, hc, hac⟩
      exact hnew (h.closed hold ((htaken a).mp hb).symm)
    · exact (hseen s).mpr (.inr ⟨.refl, .refl⟩)
    · exact (hseen x).mpr (.inl hx)

include hvertices hprev in
/-- The components are those of the graph: each is the class of a vertex, every vertex has one, and no
vertex is listed twice. -/
theorem kosaraju_spec :
    (∀ c ∈ kosaraju next prev vertices, ∃ x ∈ vertices, ∀ y, y ∈ c ↔ SameComponent next x y) ∧
      (∀ x ∈ vertices, ∃ c ∈ kosaraju next prev vertices, x ∈ c) ∧
      (kosaraju next prev vertices).flatten.Nodup := by
  obtain ⟨hnodup, hmem, -⟩ := leaveOrder_spec hvertices
  have hfold : ∀ (todo done : List α) (state : List α × List (List α)),
      (leaveOrder next vertices).reverse = done ++ todo → Collected next vertices state →
      (∀ x ∈ done, x ∈ state.1) →
      Collected next vertices (todo.foldl (collect prev (1 + vertices.length)) state) ∧
        ∀ x ∈ done ++ todo, x ∈ (todo.foldl (collect prev (1 + vertices.length)) state).1 := by
    intro todo
    induction todo with
    | nil =>
      intro done state _ h hdone
      exact ⟨h, by simpa using hdone⟩
    | cons s todo ih =>
      intro done state heq h hdone
      have horder : leaveOrder next vertices = todo.reverse ++ s :: done.reverse := by
        have hrev := congrArg List.reverse heq
        simpa using hrev
      have hs : s ∈ vertices := (hmem s).mp (by rw [horder]; simp)
      have hlate : ∀ x ∈ vertices, x ∉ state.1 →
          (leaveOrder next vertices).idxOf x ≤ (leaveOrder next vertices).idxOf s := by
        intro x hx hnew
        have hstodo : s ∉ todo.reverse := by
          rw [horder] at hnodup
          intro hin
          exact (nodup_append.mp hnodup).2.2 s hin s (mem_cons_self ..) rfl
        have hxin : x ∈ todo.reverse ++ s :: done.reverse := horder ▸ (hmem x).mpr hx
        rw [horder, idxOf_append_of_notMem hstodo, idxOf_cons_self]
        rcases mem_append.mp hxin with hin | hin
        · rw [idxOf_append_of_mem hin]
          have hlt := idxOf_lt_length_of_mem hin
          omega
        · rcases mem_cons.mp hin with rfl | hin
          · exact Nat.le_of_eq (by rw [idxOf_append_of_notMem hstodo, idxOf_cons_self])
          · exact absurd (hdone x (mem_reverse.mp hin)) hnew
      obtain ⟨h1, h2, h3⟩ := h.step hvertices hprev hs hlate
      have hdone' : ∀ x ∈ done ++ [s], x ∈ (collect prev (1 + vertices.length) state s).1 := by
        intro x hx
        rcases mem_append.mp hx with hx | hx
        · exact h3 (hdone x hx)
        · exact mem_singleton.mp hx ▸ h2
      obtain ⟨g1, g2⟩ := ih (done ++ [s]) _ (by rw [heq]; simp) h1 hdone'
      refine ⟨g1, fun x hx => g2 x ?_⟩
      simpa using hx
  obtain ⟨h, hall⟩ := hfold (leaveOrder next vertices).reverse [] ([], []) (by simp)
    ⟨by simp, by simp, by simp, by simp⟩ (by simp)
  refine ⟨h.component, fun x hx => ?_, h.nodup⟩
  exact (h.assigned x).mp (hall x (by simpa using (hmem x).mpr hx))

end

end Workbay.Graph
