import Workbay.Graph.TopologicalOrder

/-!
# Proofs: which edges a peeling respects

A vertex comes before one that waits for it exactly when no cycle among the vertices that are not less
than the latter leads to the former.
-/

namespace Workbay.Graph

open Relation List

variable {α κ : Type} [DecidableEq α] [LinearOrder κ] {key : α → κ} {waitsFor : α → α → Bool}

/-- One vertex is taken before another where all that is left waits: its key is less, or the keys are
equal and it stands first. -/
def Precedes (key : α → κ) (vertices : List α) (x y : α) : Prop :=
  key x < key y ∨ key x = key y ∧ vertices.idxOf x ≤ vertices.idxOf y

variable {left vertices : List α} {x y c p : α}

omit [DecidableEq α] in
theorem leastBy_mem {m : α} (h : leastBy key left = some m) : m ∈ left := by
  induction left generalizing m with
  | nil => cases h
  | cons x xs ih =>
    rw [leastBy] at h
    cases hxs : leastBy key xs with
    | none =>
      rw [hxs] at h
      exact Option.some.inj h ▸ mem_cons_self ..
    | some y =>
      rw [hxs] at h
      by_cases hlt : key y < key x
      · dsimp only at h
        rw [if_pos hlt] at h
        exact Option.some.inj h ▸ mem_cons_of_mem x (ih hxs)
      · dsimp only at h
        rw [if_neg hlt] at h
        exact Option.some.inj h ▸ mem_cons_self ..

omit [DecidableEq α] in
theorem leastBy_eq_none : leastBy key left = none ↔ left = [] := by
  cases left with
  | nil => exact ⟨fun _ => rfl, fun _ => rfl⟩
  | cons x xs =>
    refine ⟨fun h => ?_, fun h => by cases h⟩
    rw [leastBy] at h
    cases hxs : leastBy key xs with
    | none => rw [hxs] at h; cases h
    | some y => rw [hxs] at h; dsimp only at h; split_ifs at h

theorem leastBy_precedes {m : α} (h : leastBy key left = some m) :
    ∀ x ∈ left, Precedes key left m x := by
  induction left generalizing m with
  | nil => cases h
  | cons x xs ih =>
    rw [leastBy] at h
    intro z hz
    cases hxs : leastBy key xs with
    | none =>
      rw [hxs] at h
      obtain rfl : x = m := Option.some.inj h
      rw [leastBy_eq_none.mp hxs] at hz
      rw [mem_singleton.mp hz]
      exact .inr ⟨rfl, Nat.le_refl _⟩
    | some y =>
      rw [hxs] at h
      by_cases hlt : key y < key x
      · dsimp only at h
        rw [if_pos hlt] at h
        obtain rfl : y = m := Option.some.inj h
        have hyx : x ≠ y := by
          rintro rfl
          exact lt_irrefl _ hlt
        by_cases hzx : x = z
        · subst hzx
          exact .inl hlt
        · rcases mem_cons.mp hz with rfl | hz
          · exact absurd rfl hzx
          · rcases ih hxs z hz with hless | ⟨heq, hle⟩
            · exact .inl hless
            · refine .inr ⟨heq, ?_⟩
              rw [idxOf_cons_ne _ hyx, idxOf_cons_ne _ hzx]
              exact Nat.succ_le_succ hle
      · dsimp only at h
        rw [if_neg hlt] at h
        obtain rfl : x = m := Option.some.inj h
        have hxle : key x ≤ key z := by
          rcases mem_cons.mp hz with rfl | hz
          · exact le_refl _
          · have hyz : key y ≤ key z := by
              rcases ih hxs z hz with hless | ⟨heq, -⟩
              · exact le_of_lt hless
              · exact le_of_eq heq
            exact le_trans (le_of_not_gt hlt) hyz
        rcases lt_or_eq_of_le hxle with hless | heq
        · exact .inl hless
        · refine .inr ⟨heq, ?_⟩
          rw [idxOf_cons_self]
          exact Nat.zero_le _

theorem idxOf_filter_le {p : α → Bool} (hx : p x = true) (hy : p y = true)
    (h : (vertices.filter p).idxOf x ≤ (vertices.filter p).idxOf y) :
    vertices.idxOf x ≤ vertices.idxOf y := by
  induction vertices with
  | nil => exact Nat.le_refl _
  | cons z vertices ih =>
    by_cases hzx : z = x
    · subst hzx
      rw [idxOf_cons_self]
      exact Nat.zero_le _
    · by_cases hzy : z = y
      · subst hzy
        rw [filter_cons_of_pos hy, idxOf_cons_self, idxOf_cons_ne _ hzx] at h
        omega
      · rw [idxOf_cons_ne _ hzx, idxOf_cons_ne _ hzy]
        refine Nat.succ_le_succ (ih ?_)
        by_cases hz : p z = true
        · rw [filter_cons_of_pos hz, idxOf_cons_ne _ hzx, idxOf_cons_ne _ hzy] at h
          exact Nat.le_of_succ_le_succ h
        · rwa [filter_cons_of_neg hz] at h

theorem Precedes.of_filter {p : α → Bool} (hx : p x = true) (hy : p y = true)
    (h : Precedes key (vertices.filter p) x y) : Precedes key vertices x y :=
  h.imp_right fun hle => ⟨hle.1, idxOf_filter_le hx hy hle.2⟩

theorem Precedes.antisymm (hx : x ∈ vertices) (h : Precedes key vertices x y)
    (h' : Precedes key vertices y x) : x = y := by
  rcases h with h | ⟨heq, h⟩
  · rcases h' with h' | ⟨heq, -⟩
    · exact absurd (lt_trans h h') (lt_irrefl _)
    · exact absurd heq (ne_of_gt h)
  · rcases h' with h' | ⟨-, h'⟩
    · exact absurd heq.symm (ne_of_lt h')
    · exact (idxOf_inj hx).mp (Nat.le_antisymm h h')

omit [DecidableEq α] in
theorem mem_readyOf :
    x ∈ readyOf key waitsFor left ↔ x ∈ left ∧ ∀ y ∈ left, waitsFor x y = false := by
  rw [readyOf, (perm_insertionSort _ _).mem_iff, mem_filter]
  simp

omit [DecidableEq α] in
theorem roundOf_cases (key : α → κ) (waitsFor : α → α → Bool) (hleft : left ≠ []) :
    roundOf key waitsFor left = readyOf key waitsFor left ∨
      ∃ m, leastBy key left = some m ∧ roundOf key waitsFor left = [m] ∧
        ∀ x ∈ left, ∃ y ∈ left, waitsFor x y = true := by
  cases hready : readyOf key waitsFor left with
  | cons x xs =>
    left
    rw [roundOf, hready]
  | nil =>
    right
    cases hleast : leastBy key left with
    | none => exact absurd (leastBy_eq_none.mp hleast) hleft
    | some m =>
      refine ⟨m, rfl, by rw [roundOf, hready]; dsimp only; rw [hleast]; rfl, fun x hx => ?_⟩
      by_contra hnone
      push Not at hnone
      have hin : x ∈ readyOf key waitsFor left :=
        mem_readyOf.mpr ⟨hx, fun y hy => by simpa using hnone y hy⟩
      rw [hready] at hin
      cases hin

omit [DecidableEq α] in
theorem roundOf_subset : roundOf key waitsFor left ⊆ left := by
  intro x hx
  by_cases hleft : left = []
  · subst hleft
    simp [roundOf, readyOf, leastBy] at hx
  · rcases roundOf_cases key waitsFor hleft with hround | ⟨m, hm, hround, -⟩
    · rw [hround] at hx
      exact (mem_readyOf.mp hx).1
    · rw [hround, mem_singleton] at hx
      exact hx ▸ leastBy_mem hm

omit [DecidableEq α] in
theorem nodup_roundOf (hnodup : left.Nodup) : (roundOf key waitsFor left).Nodup := by
  by_cases hleft : left = []
  · subst hleft
    exact nodup_nil
  · rcases roundOf_cases key waitsFor hleft with hround | ⟨m, -, hround, -⟩
    · rw [hround]
      exact (perm_insertionSort _ _).nodup_iff.mpr (hnodup.filter _)
    · rw [hround]
      exact pairwise_singleton _ _

omit [DecidableEq α] in
theorem roundOf_ne_nil (key : α → κ) (waitsFor : α → α → Bool) (hleft : left ≠ []) :
    roundOf key waitsFor left ≠ [] := by
  intro hnil
  rcases roundOf_cases key waitsFor hleft with hround | ⟨m, -, hround, -⟩
  · cases hready : readyOf key waitsFor left with
    | cons x xs => rw [hround, hready] at hnil; cases hnil
    | nil =>
      cases hleast : leastBy key left with
      | none => exact hleft (leastBy_eq_none.mp hleast)
      | some m =>
        rw [roundOf, hready] at hnil
        dsimp only at hnil
        rw [hleast] at hnil
        cases hnil
  · rw [hround] at hnil
    cases hnil

theorem length_left_lt (key : α → κ) (waitsFor : α → α → Bool) (hleft : left ≠ []) :
    (left.filter fun x => x ∉ roundOf key waitsFor left).length < left.length := by
  obtain ⟨x, hx⟩ := exists_mem_of_ne_nil _ (roundOf_ne_nil key waitsFor hleft)
  exact length_filter_lt_length_iff_exists.mpr ⟨x, roundOf_subset hx, by simpa using hx⟩

theorem peelFrom_perm : ∀ (fuel : Nat) (left : List α), left.length ≤ fuel → left.Nodup →
    (peelFrom key waitsFor fuel left).Perm left := by
  intro fuel
  induction fuel with
  | zero =>
    intro left hlen _
    rw [length_eq_zero_iff.mp (Nat.le_zero.mp hlen)]
    exact List.Perm.nil
  | succ fuel ih =>
    intro left hlen hnodup
    rw [peelFrom]
    by_cases hleft : left = []
    · rw [if_pos hleft, hleft]
    · rw [if_neg hleft]
      have hless := length_left_lt key waitsFor hleft
      refine ((ih _ (by omega) (hnodup.filter _)).append_left _).trans ?_
      refine (perm_ext_iff_of_nodup ?_ hnodup).mpr fun x => ?_
      · refine nodup_append.mpr ⟨nodup_roundOf hnodup, hnodup.filter _, ?_⟩
        rintro x hx y hy rfl
        simp only [mem_filter, decide_eq_true_eq] at hy
        exact hy.2 hx
      · simp only [mem_append, mem_filter, decide_eq_true_eq]
        constructor
        · rintro (hx | hx)
          · exact roundOf_subset hx
          · exact hx.1
        · intro hx
          by_cases hround : x ∈ roundOf key waitsFor left
          · exact .inl hround
          · exact .inr ⟨hx, hround⟩

theorem peel_perm (hnodup : vertices.Nodup) : (peel key waitsFor vertices).Perm vertices :=
  peelFrom_perm _ _ (Nat.le_refl _) hnodup

/-- Waiting within some vertices. -/
def WaitsIn (waitsFor : α → α → Bool) (inside : α → Prop) (x y : α) : Prop :=
  waitsFor x y = true ∧ inside x ∧ inside y

/-- A vertex waits for one that waits for itself, all within some vertices. -/
def WaitsForCycle (waitsFor : α → α → Bool) (inside : α → Prop) (x : α) : Prop :=
  ∃ z, ReflTransGen (WaitsIn waitsFor inside) x z ∧ TransGen (WaitsIn waitsFor inside) z z

omit [DecidableEq α] in
theorem WaitsForCycle.mono {inside inside' : α → Prop} (hsub : ∀ x, inside x → inside' x)
    (h : WaitsForCycle waitsFor inside x) : WaitsForCycle waitsFor inside' x := by
  have hstep : ∀ a b, WaitsIn waitsFor inside a b → WaitsIn waitsFor inside' a b :=
    fun a b hab => ⟨hab.1, hsub a hab.2.1, hsub b hab.2.2⟩
  obtain ⟨z, hreach, hcycle⟩ := h
  exact ⟨z, hreach.lift id hstep, hcycle.lift id hstep⟩

omit [DecidableEq α] in
theorem WaitsForCycle.step {inside : α → Prop} (h : WaitsForCycle waitsFor inside x) :
    ∃ y, WaitsIn waitsFor inside x y ∧ WaitsForCycle waitsFor inside y := by
  obtain ⟨z, hreach, hcycle⟩ := h
  rcases ReflTransGen.cases_head hreach with rfl | ⟨y, hstep, hrest⟩
  · obtain ⟨y, hstep, hrest⟩ := TransGen.head'_iff.mp hcycle
    exact ⟨y, hstep, x, hrest, hcycle⟩
  · exact ⟨y, hstep, z, hrest, hcycle⟩

omit [DecidableEq α] in
theorem waitsForCycle_of_all (hall : ∀ x ∈ left, ∃ y ∈ left, waitsFor x y = true) (hc : c ∈ left) :
    WaitsForCycle waitsFor (· ∈ left) c := by
  classical
  -- what a vertex reaches shrinks along every step, as long as there is no cycle
  by_contra hnone
  induction hn : (left.filter fun y => TransGen (WaitsIn waitsFor (· ∈ left)) c y).length
    using Nat.strong_induction_on generalizing c with
  | _ n ih =>
    obtain ⟨d, hd, hwait⟩ := hall c hc
    have hstep : WaitsIn waitsFor (· ∈ left) c d := ⟨hwait, hc, hd⟩
    have hdnone : ¬ WaitsForCycle waitsFor (· ∈ left) d := by
      rintro ⟨z, hreach, hcycle⟩
      exact hnone ⟨z, ReflTransGen.head hstep hreach, hcycle⟩
    refine ih _ ?_ hd hdnone rfl
    rw [← hn]
    have hfilter : (left.filter fun y => TransGen (WaitsIn waitsFor (· ∈ left)) d y) =
        (left.filter fun y => TransGen (WaitsIn waitsFor (· ∈ left)) c y).filter
          fun y => TransGen (WaitsIn waitsFor (· ∈ left)) d y := by
      rw [filter_filter]
      refine filter_congr fun y _ => ?_
      by_cases hy : TransGen (WaitsIn waitsFor (· ∈ left)) d y
      · simp [hy, TransGen.head hstep hy]
      · simp [hy]
    rw [hfilter]
    refine length_filter_lt_length_iff_exists.mpr ⟨d, ?_, ?_⟩
    · simp only [mem_filter, decide_eq_true_eq]
      exact ⟨hd, TransGen.single hstep⟩
    · simp only [decide_eq_true_eq]
      exact fun hcycle => hdnone ⟨d, ReflTransGen.refl, hcycle⟩

/-! ## Which of two vertices is taken first -/

theorem idxOf_append_lt {first rest : List α} (hx : x ∈ first) (hy : y ∉ first) :
    (first ++ rest).idxOf x < (first ++ rest).idxOf y := by
  rw [idxOf_append_of_mem hx, idxOf_append_of_notMem hy]
  have := idxOf_lt_length_of_mem hx
  omega

theorem idxOf_append_rest {first rest : List α} (hx : x ∉ first) (hy : y ∉ first) :
    (first ++ rest).idxOf x < (first ++ rest).idxOf y ↔ rest.idxOf x < rest.idxOf y := by
  rw [idxOf_append_of_notMem hx, idxOf_append_of_notMem hy]
  omega

/-- A selection of a list puts its members in no other order. -/
def Follows (key : α → κ) (vertices left : List α) : Prop :=
  ∀ x ∈ left, ∀ y ∈ left, Precedes key left x y → Precedes key vertices x y

theorem Follows.filter (h : Follows key vertices left) (p : α → Bool) :
    Follows key vertices (left.filter p) := by
  intro x hx y hy hxy
  obtain ⟨hxl, hxp⟩ := mem_filter.mp hx
  obtain ⟨hyl, hyp⟩ := mem_filter.mp hy
  exact h x hxl y hyl (hxy.of_filter hxp hyp)

/-- A vertex is taken before one that waits for it when it waits for no cycle of vertices that the
latter precedes. -/
theorem peelFrom_before {base : List α} (hwait : waitsFor p c = true)
    (hnone : ¬ WaitsForCycle waitsFor (fun x => x ∈ base ∧ Precedes key vertices p x) c) :
    ∀ (fuel : Nat) (left : List α), left.length ≤ fuel → left ⊆ base →
      Follows key vertices left → c ∈ left → p ∈ left →
      (peelFrom key waitsFor fuel left).idxOf c < (peelFrom key waitsFor fuel left).idxOf p := by
  intro fuel
  induction fuel with
  | zero =>
    intro left hlen _ _ hc _
    rw [length_eq_zero_iff.mp (Nat.le_zero.mp hlen)] at hc
    cases hc
  | succ fuel ih =>
    intro left hlen hsub hfollows hc hp
    have hleft : left ≠ [] := ne_nil_of_mem hc
    have hless := length_left_lt key waitsFor hleft
    rw [peelFrom, if_neg hleft]
    have hround : p ∉ roundOf key waitsFor left := by
      intro hin
      rcases roundOf_cases key waitsFor hleft with hready | ⟨m, hm, hone, hall⟩
      · rw [hready] at hin
        have hnot := (mem_readyOf.mp hin).2 c hc
        rw [hwait] at hnot
        cases hnot
      · rw [hone, mem_singleton] at hin
        subst hin
        refine hnone ((waitsForCycle_of_all hall hc).mono fun x hx => ⟨hsub hx, ?_⟩)
        exact hfollows p hp x hx (leastBy_precedes hm x hx)
    by_cases hcin : c ∈ roundOf key waitsFor left
    · exact idxOf_append_lt hcin hround
    · refine (idxOf_append_rest hcin hround).mpr (ih _ (by omega) ?_ (hfollows.filter _) ?_ ?_)
      · exact fun x hx => hsub (mem_filter.mp hx).1
      · exact mem_filter.mpr ⟨hc, by simpa using hcin⟩
      · exact mem_filter.mpr ⟨hp, by simpa using hround⟩

/-- As long as a vertex is not taken, nothing is taken of vertices that it precedes and that all wait for
one of them. -/
theorem peelFrom_first (waitsFor : α → α → Bool) (core : α → Prop) (hp : core p)
    (hprecedes : ∀ x, core x → x ∈ vertices ∧ Precedes key vertices p x)
    (hwaits : ∀ x, core x → ∃ y, core y ∧ waitsFor x y = true) :
    ∀ (fuel : Nat) (left : List α), left.length ≤ fuel →
      Follows key vertices left → (∀ x, core x → x ∈ left) → ∀ c, core c → c ≠ p →
      (peelFrom key waitsFor fuel left).idxOf p < (peelFrom key waitsFor fuel left).idxOf c := by
  intro fuel
  induction fuel with
  | zero =>
    intro left hlen _ hcore
    have hin := hcore p hp
    rw [length_eq_zero_iff.mp (Nat.le_zero.mp hlen)] at hin
    cases hin
  | succ fuel ih =>
    intro left hlen hfollows hcore c hc hne
    have hleft : left ≠ [] := ne_nil_of_mem (hcore p hp)
    have hless := length_left_lt key waitsFor hleft
    rw [peelFrom, if_neg hleft]
    -- of the core, a round takes at most the first vertex
    have honly : ∀ x, core x → x ∈ roundOf key waitsFor left → x = p := by
      intro x hx hin
      rcases roundOf_cases key waitsFor hleft with hready | ⟨m, hm, hone, -⟩
      · rw [hready] at hin
        obtain ⟨y, hy, hwait⟩ := hwaits x hx
        have hnot := (mem_readyOf.mp hin).2 y (hcore y hy)
        rw [hwait] at hnot
        cases hnot
      · rw [hone, mem_singleton] at hin
        subst hin
        have hmin := hfollows x (hcore x hx) p (hcore p hp) (leastBy_precedes hm p (hcore p hp))
        exact hmin.antisymm (hprecedes x hx).1 (hprecedes x hx).2
    have hcout : c ∉ roundOf key waitsFor left := fun hin => hne (honly c hc hin)
    by_cases hpin : p ∈ roundOf key waitsFor left
    · exact idxOf_append_lt hpin hcout
    · refine (idxOf_append_rest hpin hcout).mpr
        (ih _ (by omega) (hfollows.filter _) (fun x hx => ?_) c hc hne)
      refine mem_filter.mpr ⟨hcore x hx, ?_⟩
      have : x ∉ roundOf key waitsFor left := fun hin => hpin (honly x hx hin ▸ hin)
      simpa using this

theorem peel_before_iff {base : List α} (hfollows : Follows key vertices base)
    (hsub : base ⊆ vertices) (hwait : waitsFor p c = true) (hne : c ≠ p) (hc : c ∈ base)
    (hp : p ∈ base) : (peel key waitsFor base).idxOf c < (peel key waitsFor base).idxOf p ↔
      ¬ WaitsForCycle waitsFor (fun x => x ∈ base ∧ Precedes key vertices p x) c := by
  constructor
  · intro hbefore hcycle
    have hfirst := peelFrom_first waitsFor
      (fun x => x = p ∨ WaitsForCycle waitsFor (fun x => x ∈ base ∧ Precedes key vertices p x) x)
      (.inl rfl) ?_ ?_ base.length base (Nat.le_refl _) hfollows ?_ c (.inr hcycle) hne
    · exact Nat.lt_asymm hbefore hfirst
    · rintro x (rfl | hx)
      · exact ⟨hsub hp, .inr ⟨rfl, Nat.le_refl _⟩⟩
      · obtain ⟨y, hstep, -⟩ := hx.step
        exact ⟨hsub hstep.2.1.1, hstep.2.1.2⟩
    · rintro x (rfl | hx)
      · exact ⟨c, .inr hcycle, hwait⟩
      · obtain ⟨y, hstep, hy⟩ := hx.step
        exact ⟨y, .inr hy, hstep.1⟩
    · rintro x (rfl | hx)
      · exact hp
      · obtain ⟨y, hstep, -⟩ := hx.step
        exact hstep.2.1.1
  · intro hnone
    exact peelFrom_before hwait hnone _ _ (Nat.le_refl _) (fun _ h => h) hfollows hc hp

end Workbay.Graph
