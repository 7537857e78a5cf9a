import Workbay.Reading.Plan
import Mathlib.Algebra.Order.BigOperators.Group.List
import Mathlib.Tactic.Linarith

/-!
# The reductions of a state

Whatever the budget, a state is reduced in one order. The planner goes through these drafts and stops
at the first that fits, or at the last, from which nothing is left to reduce.
-/

namespace Workbay.Reading

open List

open Effects (whileLoop Settles whileLoop_settles whileLoop_induct)

/-! ## The order of the reductions -/

/-- The drafts that `omitSections` goes through if none fits. -/
def omitTrace : List Section → Draft → List Draft
  | [], _ => []
  | s :: rest, d =>
    if d.mayOmit s then d.omitSection s :: omitTrace rest (d.omitSection s) else omitTrace rest d

/-- The drafts that `lowerRound` goes through if none fits. -/
def roundTrace : List Section → Draft → List Draft
  | [], _ => []
  | s :: rest, d =>
    if d.mayLower s then d.lowerLimit s :: roundTrace rest (d.lowerLimit s) else roundTrace rest d

/-- The drafts of some rounds. -/
def lowerTrace : Nat → Draft → List Draft
  | 0, _ => []
  | rounds + 1, d =>
    roundTrace reductionPriority d ++
      lowerTrace rounds ((roundTrace reductionPriority d).getLastD d)

/-- The rows that are left to lower. -/
def Draft.rows (d : Draft) : Nat := (Section.all.map fun s => (d.shape.limit s).toNat).sum

/-- The drafts after the first: optional slices are left out, limits are halved down to one row, and
the sections that are not required are left out. -/
def reductionsAfter (d : Draft) : List Draft :=
  let omitted := omitTrace omitPriority d
  let lowered := lowerTrace (omitted.getLastD d).rows (omitted.getLastD d)
  omitted ++ lowered ++ omitTrace reductionPriority (lowered.getLastD (omitted.getLastD d))

/-- The drafts that a state is reduced through. -/
def reductions (shape : ResolvedStateShape) : List Draft :=
  Draft.ofShape shape :: reductionsAfter (Draft.ofShape shape)

/-- No reduction is left. -/
def Draft.Spent (d : Draft) : Prop := ∀ s, d.mayOmit s = false ∧ d.mayLower s = false

/-- One reduction. -/
def Draft.Reduces (d d' : Draft) : Prop :=
  ∃ s, (d.mayOmit s = true ∧ d' = d.omitSection s) ∨ (d.mayLower s = true ∧ d' = d.lowerLimit s)

/-! ## The first draft that fits -/

/-- The first draft that fits, or the last. -/
def firstFit (budget : Int) : Draft → List Draft → Draft
  | d, [] => d
  | d, d' :: rest => if d.estimate ≤ budget then d else firstFit budget d' rest

section

variable {budget : Int}

variable {d : Draft}

theorem firstFit_of_fits (h : d.estimate ≤ budget) (rest : List Draft) :
    firstFit budget d rest = d := by
  cases rest with
  | nil => rfl
  | cons d' rest => rw [firstFit, if_pos h]

theorem firstFit_cons_of_over (h : ¬ d.estimate ≤ budget) (d' : Draft) (rest : List Draft) :
    firstFit budget d (d' :: rest) = firstFit budget d' rest := by
  rw [firstFit, if_neg h]

theorem firstFit_append (d : Draft) (xs ys : List Draft) :
    firstFit budget d (xs ++ ys) =
      if (firstFit budget d xs).estimate ≤ budget then firstFit budget d xs
      else firstFit budget (xs.getLastD d) ys := by
  induction xs generalizing d with
  | nil =>
    by_cases h : d.estimate ≤ budget
    · simp [firstFit, h, firstFit_of_fits]
    · simp [firstFit, h]
  | cons x xs ih =>
    by_cases h : d.estimate ≤ budget
    · rw [firstFit_of_fits h, firstFit_of_fits h, if_pos h]
    · rw [cons_append, firstFit_cons_of_over h, firstFit_cons_of_over h, ih, getLastD_cons]

theorem firstFit_eq_last {rest : List Draft} (h : ¬ (firstFit budget d rest).estimate ≤ budget) :
    firstFit budget d rest = rest.getLastD d := by
  induction rest generalizing d with
  | nil => rfl
  | cons d' rest ih =>
    by_cases hd : d.estimate ≤ budget
    · rw [firstFit_of_fits hd] at h
      exact absurd hd h
    · rw [firstFit_cons_of_over hd] at h ⊢
      rw [ih h, getLastD_cons]

theorem firstFit_before {R : Draft → Draft → Prop} {rest : List Draft}
    (hpairs : (d :: rest).Pairwise R) {x : Draft} (hx : x ∈ d :: rest) (hfits : x.estimate ≤ budget) :
    firstFit budget d rest = x ∨ R (firstFit budget d rest) x := by
  induction rest generalizing d with
  | nil => exact .inl (mem_singleton.mp hx).symm
  | cons d' rest ih =>
    obtain ⟨hhead, htail⟩ := pairwise_cons.mp hpairs
    by_cases hd : d.estimate ≤ budget
    · rw [firstFit_of_fits hd]
      rcases mem_cons.mp hx with rfl | hx
      · exact .inl rfl
      · exact .inr (hhead x hx)
    · rw [firstFit_cons_of_over hd]
      rcases mem_cons.mp hx with rfl | hx
      · exact absurd hfits hd
      · exact ih htail hx

theorem firstFit_mem (d : Draft) (rest : List Draft) : firstFit budget d rest ∈ d :: rest := by
  induction rest generalizing d with
  | nil => exact mem_cons_self
  | cons d' rest ih =>
    by_cases hd : d.estimate ≤ budget
    · rw [firstFit_of_fits hd]
      exact mem_cons_self
    · rw [firstFit_cons_of_over hd]
      exact mem_cons_of_mem _ (ih d')

/-! ## The planner stops at the first draft that fits -/

theorem omitSections_eq {order : List Section} (h : ¬ d.estimate ≤ budget) :
    omitSections budget order d = firstFit budget d (omitTrace order d) := by
  induction order generalizing d with
  | nil => rfl
  | cons s rest ih =>
    rw [omitSections, omitTrace]
    by_cases hmay : d.mayOmit s = true
    · rw [if_pos hmay, if_pos hmay, firstFit_cons_of_over h]
      by_cases hfits : (d.omitSection s).estimate ≤ budget
      · rw [if_pos hfits, firstFit_of_fits hfits]
      · rw [if_neg hfits, ih hfits]
    · rw [if_neg hmay, if_neg hmay, ih h]

theorem omitWhileOver_eq (order : List Section) (d : Draft) :
    omitWhileOver budget order d = firstFit budget d (omitTrace order d) := by
  unfold omitWhileOver
  by_cases h : d.estimate ≤ budget
  · rw [if_neg (not_lt.mpr h), firstFit_of_fits h]
  · rw [if_pos (not_le.mp h), omitSections_eq h]

theorem lowerRound_eq {order : List Section} (h : ¬ d.estimate ≤ budget) :
    lowerRound budget order d =
      (firstFit budget d (roundTrace order d), decide (roundTrace order d ≠ [])) := by
  induction order generalizing d with
  | nil => rfl
  | cons s rest ih =>
    rw [lowerRound, roundTrace]
    by_cases hmay : d.mayLower s = true
    · rw [if_pos hmay, if_pos hmay, firstFit_cons_of_over h]
      by_cases hfits : (d.lowerLimit s).estimate ≤ budget
      · rw [if_pos hfits, firstFit_of_fits hfits]
        simp
      · rw [if_neg hfits, ih hfits]
        simp
    · rw [if_neg hmay, if_neg hmay, ih h]

end

variable {d d' : Draft} {s : Section} {order : List Section}

theorem Draft.mayLower_iff :
    d.mayLower s = true ↔ isActive d.shape s = true ∧ s ∉ d.omitted ∧ 1 < d.shape.limit s := by
  simp [Draft.mayLower, and_assoc]

theorem Draft.mayOmit_iff : d.mayOmit s = true ↔ s ∉ requiredSectionsFor d.shape.appliedProfile ∧
      isActive d.shape s = true ∧ s ∉ d.omitted := by
  simp [Draft.mayOmit, and_assoc]

/-- What the drafts of a state have in common: its sections, its detail and its profile; limits only
go down, to one row at the least, and only optional sections that are read are left out. -/
structure Draft.Within (start d : Draft) : Prop where
  sections : d.shape.sections = start.shape.sections
  detail : d.shape.detail = start.shape.detail
  profile : d.shape.appliedProfile = start.shape.appliedProfile
  limit_le : ∀ s, d.shape.limit s ≤ start.shape.limit s
  omitted : ∀ s ∈ start.omitted, s ∈ d.omitted
  optional : ∀ s ∈ d.omitted, s ∈ start.omitted ∨
    (isActive start.shape s = true ∧ s ∉ requiredSectionsFor start.shape.appliedProfile)

theorem isActive_congr {a b : ResolvedStateShape} (h : a.sections = b.sections) (s : Section) :
    isActive a s = isActive b s := by
  unfold isActive
  rw [h]

theorem Draft.Within.refl (d : Draft) : d.Within d :=
  ⟨rfl, rfl, rfl, fun _ => le_refl _, fun _ h => h, fun _ h => .inl h⟩

theorem Draft.Within.trans {a b c : Draft} (hab : a.Within b) (hbc : b.Within c) : a.Within c where
  sections := hbc.sections.trans hab.sections
  detail := hbc.detail.trans hab.detail
  profile := hbc.profile.trans hab.profile
  limit_le s := le_trans (hbc.limit_le s) (hab.limit_le s)
  omitted s h := hbc.omitted s (hab.omitted s h)
  optional s h := by
    rcases hbc.optional s h with h | ⟨hactive, hoptional⟩
    · exact hab.optional s h
    · exact .inr ⟨by rw [← isActive_congr hab.sections]; exact hactive, by
        rw [← hab.profile]; exact hoptional⟩

theorem lowered_lt {limit : Int} (h : 1 < limit) : max 1 (limit / 2) < limit := by omega

theorem Draft.Reduces.within (h : d.Reduces d') : d.Within d' := by
  obtain ⟨s, ⟨hmay, rfl⟩ | ⟨hmay, rfl⟩⟩ := h
  · obtain ⟨hoptional, hactive, -⟩ := Draft.mayOmit_iff.mp hmay
    refine ⟨rfl, rfl, rfl, fun _ => le_refl _, fun t ht => mem_append_left _ ht, ?_⟩
    intro t ht
    rcases mem_append.mp ht with ht | ht
    · exact .inl ht
    · rw [mem_singleton.mp ht]
      exact .inr ⟨hactive, hoptional⟩
  · obtain ⟨-, -, hlt⟩ := Draft.mayLower_iff.mp hmay
    refine ⟨by simp [Draft.lowerLimit], by simp [Draft.lowerLimit], by simp [Draft.lowerLimit], ?_,
      fun t ht => ht, fun t ht => .inl ht⟩
    intro t
    simp only [Draft.lowerLimit, ResolvedStateShape.limit_setLimit]
    split
    case isTrue heq =>
      have hless := lowered_lt hlt
      rw [← heq]
      omega
    case isFalse => exact le_refl _

theorem Draft.Within.mayOmit (h : d.Within d') (hmay : d'.mayOmit s = true) :
    d.mayOmit s = true := by
  obtain ⟨hoptional, hactive, hkept⟩ := Draft.mayOmit_iff.mp hmay
  rw [h.profile] at hoptional
  rw [isActive_congr h.sections] at hactive
  exact Draft.mayOmit_iff.mpr ⟨hoptional, hactive, fun hmem => hkept (h.omitted s hmem)⟩

theorem Draft.Within.mayLower (h : d.Within d') (hmay : d'.mayLower s = true) :
    d.mayLower s = true := by
  obtain ⟨hactive, hkept, hlt⟩ := Draft.mayLower_iff.mp hmay
  have hle := h.limit_le s
  rw [isActive_congr h.sections] at hactive
  exact Draft.mayLower_iff.mpr ⟨hactive, fun hmem => hkept (h.omitted s hmem), by omega⟩

/-! ## A reduction makes the estimate smaller -/

variable (shape : ResolvedStateShape)

/-- What a section adds to the estimate. -/
def sectionBytes (omitted : List Section) (s : Section) : Int :=
  if isActive shape s && decide (s ∉ omitted) then
    perRowBytes shape.detail s * max 1 (shape.limit s) else 0

theorem estimateStateBytes_eq (omitted : List Section) :
    estimateStateBytes shape omitted =
      baseOverheadBytes + (Section.all.map (sectionBytes shape omitted)).sum := by
  have hsum := sum_map_ite (fun s => (isActive shape s && decide (s ∉ omitted)) = true)
    (fun s => perRowBytes shape.detail s * max 1 (shape.limit s)) (fun _ => 0) Section.all
  unfold estimateStateBytes pricedSections sectionBytes
  rw [hsum]
  simp

theorem perRowBytes_pos (detail : String) (s : Section) : 0 < perRowBytes detail s := by
  unfold perRowBytes
  split <;> cases s <;> decide

theorem rowsBytes_pos (detail : String) (s : Section) (limit : Int) :
    0 < perRowBytes detail s * max 1 limit :=
  mul_pos (perRowBytes_pos detail s) (lt_of_lt_of_le one_pos (le_max_left 1 limit))

theorem Draft.Within.sectionBytes_le (h : d.Within d') (s : Section) :
    sectionBytes d'.shape d'.omitted s ≤ sectionBytes d.shape d.omitted s := by
  have hpos := rowsBytes_pos d.shape.detail s (d.shape.limit s)
  have hrows : perRowBytes d.shape.detail s * max 1 (d'.shape.limit s) ≤
      perRowBytes d.shape.detail s * max 1 (d.shape.limit s) :=
    mul_le_mul_of_nonneg_left (max_le_max_left 1 (h.limit_le s)) (perRowBytes_pos _ s).le
  have homitted := h.omitted s
  unfold sectionBytes
  rw [isActive_congr h.sections, h.detail]
  by_cases hactive : isActive d.shape s = true
  · by_cases hold : s ∈ d.omitted
    · simp [hold, homitted hold]
    · by_cases hnew : s ∈ d'.omitted
      · simpa [hactive, hold, hnew] using hpos.le
      · simpa [hactive, hold, hnew] using hrows
  · simp [hactive]

theorem Draft.Within.estimate_le (h : d.Within d') : d'.estimate ≤ d.estimate := by
  unfold Draft.estimate
  rw [estimateStateBytes_eq, estimateStateBytes_eq]
  have hsum := sum_le_sum (l := Section.all) fun s _ => h.sectionBytes_le s
  omega

theorem Draft.Reduces.estimate_lt (h : d.Reduces d') : d'.estimate < d.estimate := by
  have hwithin := h.within
  have hless : ∃ s ∈ Section.all,
      sectionBytes d'.shape d'.omitted s < sectionBytes d.shape d.omitted s := by
    obtain ⟨s, ⟨hmay, rfl⟩ | ⟨hmay, rfl⟩⟩ := h
    · obtain ⟨-, hactive, hkept⟩ := Draft.mayOmit_iff.mp hmay
      refine ⟨s, Section.mem_all s, ?_⟩
      simp only [sectionBytes, Draft.omitSection]
      simpa [hactive, hkept] using rowsBytes_pos d.shape.detail s (d.shape.limit s)
    · obtain ⟨hactive, hkept, hlt⟩ := Draft.mayLower_iff.mp hmay
      have hless := lowered_lt hlt
      have hrows : perRowBytes d.shape.detail s * max 1 (max 1 (d.shape.limit s / 2)) <
          perRowBytes d.shape.detail s * max 1 (d.shape.limit s) :=
        mul_lt_mul_of_pos_left (by omega) (perRowBytes_pos _ s)
      refine ⟨s, Section.mem_all s, ?_⟩
      have hsame : isActive (d.shape.setLimit (max 1 (d.shape.limit s / 2)) s) s = true := by
        rw [isActive_congr (ResolvedStateShape.sections_setLimit d.shape _ s)]
        exact hactive
      simp only [sectionBytes, Draft.lowerLimit, hsame, ResolvedStateShape.detail_setLimit,
        ResolvedStateShape.limit_setLimit, if_pos]
      simpa [hactive, hkept] using hrows
  unfold Draft.estimate
  rw [estimateStateBytes_eq, estimateStateBytes_eq]
  have hsum := sum_lt_sum _ _ (fun s _ => hwithin.sectionBytes_le s) hless
  omega

/-! ## The drafts of a state, in order -/

/-- A draft that comes later is within the earlier one, smaller, and shows that something was left to
reduce. -/
structure Draft.Before (d d' : Draft) : Prop where
  within : d.Within d'
  smaller : d'.estimate < d.estimate
  unspent : ¬ d.Spent

theorem Draft.Reduces.before (h : d.Reduces d') : d.Before d' := by
  refine ⟨h.within, h.estimate_lt, fun hspent => ?_⟩
  obtain ⟨s, ⟨hmay, -⟩ | ⟨hmay, -⟩⟩ := h
  · rw [(hspent s).1] at hmay
    cases hmay
  · rw [(hspent s).2] at hmay
    cases hmay

theorem Draft.Before.trans {a b c : Draft} (hab : a.Before b) (hbc : b.Before c) : a.Before c :=
  ⟨hab.within.trans hbc.within, lt_trans hbc.smaller hab.smaller, hab.unspent⟩

instance : Trans Draft.Before Draft.Before Draft.Before := ⟨Draft.Before.trans⟩

theorem getLastD_append (d : Draft) (xs ys : List Draft) :
    (xs ++ ys).getLastD d = ys.getLastD (xs.getLastD d) := by
  induction xs generalizing d with
  | nil => rfl
  | cons x xs ih => rw [cons_append, getLastD_cons, getLastD_cons, ih]

/-- A list of drafts that are in order after `d`. -/
def InOrder (d : Draft) (rest : List Draft) : Prop := (d :: rest).IsChain Draft.Before

theorem InOrder.append {xs ys : List Draft} (hx : InOrder d xs) (hy : InOrder (xs.getLastD d) ys) :
    InOrder d (xs ++ ys) := by
  induction xs generalizing d with
  | nil => exact hy
  | cons x xs ih =>
    obtain ⟨hhead, htail⟩ := isChain_cons_cons.mp hx
    rw [getLastD_cons] at hy
    exact isChain_cons_cons.mpr ⟨hhead, ih htail hy⟩

theorem omitTrace_inOrder (order : List Section) (d : Draft) : InOrder d (omitTrace order d) := by
  induction order generalizing d with
  | nil => exact .singleton d
  | cons s rest ih =>
    rw [omitTrace]
    split
    case isTrue hmay =>
      exact isChain_cons_cons.mpr ⟨Draft.Reduces.before ⟨s, .inl ⟨hmay, rfl⟩⟩, ih _⟩
    case isFalse => exact ih d

theorem roundTrace_inOrder (order : List Section) (d : Draft) : InOrder d (roundTrace order d) := by
  induction order generalizing d with
  | nil => exact .singleton d
  | cons s rest ih =>
    rw [roundTrace]
    split
    case isTrue hmay =>
      exact isChain_cons_cons.mpr ⟨Draft.Reduces.before ⟨s, .inr ⟨hmay, rfl⟩⟩, ih _⟩
    case isFalse => exact ih d

theorem lowerTrace_inOrder (rounds : Nat) (d : Draft) : InOrder d (lowerTrace rounds d) := by
  induction rounds generalizing d with
  | zero => exact .singleton d
  | succ rounds ih => exact (roundTrace_inOrder reductionPriority d).append (ih _)

theorem reductions_inOrder :
    (reductions shape).IsChain Draft.Before :=
  ((omitTrace_inOrder _ _).append (lowerTrace_inOrder _ _)).append (by
    rw [getLastD_append]
    exact omitTrace_inOrder _ _)

theorem InOrder.within {rest : List Draft} (h : InOrder d rest) : d.Within (rest.getLastD d) := by
  induction rest generalizing d with
  | nil => exact Draft.Within.refl d
  | cons x rest ih =>
    obtain ⟨hhead, htail⟩ := isChain_cons_cons.mp h
    rw [getLastD_cons]
    exact hhead.within.trans (ih htail)

/-! ## Nothing is left to reduce at the end -/

theorem rows_lowerLimit_lt (h : d.mayLower s = true) : (d.lowerLimit s).rows < d.rows := by
  obtain ⟨-, -, hlt⟩ := Draft.mayLower_iff.mp h
  have hwithin : d.Within (d.lowerLimit s) := Draft.Reduces.within ⟨s, .inr ⟨h, rfl⟩⟩
  refine sum_lt_sum _ _ (fun t _ => Int.toNat_le_toNat (hwithin.limit_le t))
    ⟨s, Section.mem_all s, ?_⟩
  have hless := lowered_lt hlt
  simp only [Draft.lowerLimit, ResolvedStateShape.limit_setLimit, if_pos]
  omega

theorem rows_lt_of_mem_roundTrace {x : Draft} (h : x ∈ roundTrace order d) : x.rows < d.rows := by
  induction order generalizing d with
  | nil => cases h
  | cons s rest ih =>
    rw [roundTrace] at h
    by_cases hmay : d.mayLower s = true
    · rw [if_pos hmay] at h
      have hlt := rows_lowerLimit_lt hmay
      rcases mem_cons.mp h with rfl | h
      · exact hlt
      · exact lt_trans (ih h) hlt
    · rw [if_neg hmay] at h
      exact ih h

theorem rows_roundTrace_lt (h : roundTrace order d ≠ []) :
    ((roundTrace order d).getLastD d).rows < d.rows := by
  obtain ⟨x, xs, hxs⟩ := exists_cons_of_ne_nil h
  have hmem : (roundTrace order d).getLastD d ∈ roundTrace order d := by
    rw [hxs, getLastD_cons]
    exact getLastD_mem_cons
  exact rows_lt_of_mem_roundTrace hmem

theorem mayLower_of_roundTrace_nil (h : roundTrace order d = []) :
    ∀ s ∈ order, d.mayLower s = false := by
  induction order with
  | nil => simp
  | cons s rest ih =>
    rw [roundTrace] at h
    by_cases hmay : d.mayLower s = true
    · rw [if_pos hmay] at h
      cases h
    · rw [if_neg hmay] at h
      intro t ht
      rcases mem_cons.mp ht with rfl | ht
      · simpa using hmay
      · exact ih h t ht

theorem lowerTrace_of_stuck (h : roundTrace reductionPriority d = []) (rounds : Nat) :
    lowerTrace rounds d = [] := by
  induction rounds with
  | zero => rfl
  | succ rounds ih =>
    rw [lowerTrace, h]
    exact ih

theorem lowerTrace_stable {n m : Nat} (hn : d.rows ≤ n) (hm : d.rows ≤ m) :
    lowerTrace n d = lowerTrace m d := by
  induction n generalizing d m with
  | zero =>
    have hstuck : roundTrace reductionPriority d = [] := by
      by_contra hne
      have hlt := rows_roundTrace_lt hne
      omega
    rw [lowerTrace_of_stuck hstuck, lowerTrace_of_stuck hstuck]
  | succ n ih =>
    by_cases hstuck : roundTrace reductionPriority d = []
    · rw [lowerTrace_of_stuck hstuck, lowerTrace_of_stuck hstuck]
    · have hlt := rows_roundTrace_lt hstuck
      obtain ⟨k, rfl⟩ : ∃ k, m = k + 1 := Nat.exists_eq_succ_of_ne_zero (by omega)
      rw [lowerTrace, lowerTrace, ih (m := k) (by omega) (by omega)]

theorem mayLower_lowerTrace {n : Nat} (hn : d.rows ≤ n) (s : Section) :
    ((lowerTrace n d).getLastD d).mayLower s = false := by
  have hmem : s ∈ reductionPriority := by cases s <;> decide
  induction n generalizing d with
  | zero =>
    refine mayLower_of_roundTrace_nil ?_ s hmem
    by_contra hne
    have hlt := rows_roundTrace_lt hne
    rw [lowerTrace, getLastD_nil] at hlt
    omega
  | succ n ih =>
    by_cases hstuck : roundTrace reductionPriority d = []
    · rw [lowerTrace_of_stuck hstuck, getLastD_nil]
      exact mayLower_of_roundTrace_nil hstuck s hmem
    · have hlt := rows_roundTrace_lt hstuck
      rw [lowerTrace, getLastD_append]
      exact ih (by omega)

theorem mayOmit_omitTrace (d : Draft) (h : s ∈ order) :
    ((omitTrace order d).getLastD d).mayOmit s = false := by
  induction order generalizing d with
  | nil => cases h
  | cons t rest ih =>
    have hlater : ∀ d', d'.mayOmit s = false →
        ((omitTrace rest d').getLastD d').mayOmit s = false := by
      intro d' hnot
      by_contra hmay
      have hmay' := (omitTrace_inOrder rest d').within.mayOmit (by simpa only [Bool.not_eq_false] using hmay)
      rw [hnot] at hmay'
      cases hmay'
    rw [omitTrace]
    by_cases hmay : d.mayOmit t = true
    · rw [if_pos hmay, getLastD_cons]
      rcases mem_cons.mp h with rfl | h
      · exact hlater _ (by simp [Draft.mayOmit, Draft.omitSection])
      · exact ih _ h
    · rw [if_neg hmay]
      rcases mem_cons.mp h with rfl | h
      · exact hlater _ (by simpa using hmay)
      · exact ih _ h

theorem reductions_last_spent :
    ((reductionsAfter (Draft.ofShape shape)).getLastD (Draft.ofShape shape)).Spent := by
  intro s
  have hmem : s ∈ reductionPriority := by cases s <;> decide
  unfold reductionsAfter
  simp only []
  rw [getLastD_append, getLastD_append]
  refine ⟨mayOmit_omitTrace _ hmem, ?_⟩
  by_contra hmay
  have hlower := (omitTrace_inOrder reductionPriority _).within.mayLower
    (by simpa only [Bool.not_eq_false] using hmay)
  rw [mayLower_lowerTrace (le_refl _)] at hlower
  cases hlower

/-! ## The loop of the planner ends -/

section

variable {budget : Int}

theorem rows_lowerRound {d : Draft} (h : ¬ d.estimate ≤ budget) :
    2 * (lowerRound budget reductionPriority d).1.rows +
        (lowerRound budget reductionPriority d).2.toNat < 2 * d.rows + 1 := by
  rw [lowerRound_eq h]
  cases hround : roundTrace reductionPriority d with
  | nil => simp [firstFit]
  | cons x xs =>
    have hmem : firstFit budget d (x :: xs) ∈ roundTrace reductionPriority d := by
      rw [hround, firstFit_cons_of_over h]
      exact firstFit_mem x xs
    have hlt := rows_lt_of_mem_roundTrace hmem
    simp only [ne_eq, reduceCtorEq, not_false_eq_true, decide_true, Bool.toNat_true]
    omega

theorem firstFit_lowerRound {d : Draft} (h : ¬ d.estimate ≤ budget) :
    firstFit budget (lowerRound budget reductionPriority d).1
        (lowerTrace (lowerRound budget reductionPriority d).1.rows
          (lowerRound budget reductionPriority d).1) =
      firstFit budget d (lowerTrace d.rows d) := by
  rw [lowerRound_eq h]
  by_cases hstuck : roundTrace reductionPriority d = []
  · rw [hstuck]
    rfl
  · have hlt := rows_roundTrace_lt hstuck
    obtain ⟨k, hk⟩ : ∃ k, d.rows = k + 1 := Nat.exists_eq_succ_of_ne_zero (by omega)
    rw [hk, lowerTrace, firstFit_append]
    split
    case isTrue hfits => rw [firstFit_of_fits hfits]
    case isFalse hover =>
      have hlast := firstFit_eq_last hover
      simp only [hlast]
      rw [lowerTrace_stable (m := k) (le_refl _) (by omega)]

theorem goesOn_iff {turn : Draft × Bool} :
    goesOn budget turn = true ↔ ¬ turn.1.estimate ≤ budget ∧ turn.2 = true := by
  simp [goesOn]

theorem lowerLimits_settles (budget : Int) (d : Draft) :
    Settles (fun fuel => lowerLimits fuel budget d) (firstFit budget d (lowerTrace d.rows d)) := by
  obtain ⟨turn, hturn⟩ := whileLoop_settles (goesOn budget)
    (fun turn => lowerRound budget reductionPriority turn.1)
    (fun turn => 2 * turn.1.rows + turn.2.toNat) (fun turn htest => by
      obtain ⟨hfits, hgo⟩ := goesOn_iff.mp htest
      rw [hgo]
      exact rows_lowerRound hfits) (d, true)
  obtain ⟨fuel, hfuel⟩ := hturn.ended
  -- Where the loop ends, the draft fits or is the last, and it has kept to the trace.
  obtain ⟨⟨htarget, hstuck⟩, hexit⟩ := whileLoop_induct (goesOn budget)
    (fun turn => lowerRound budget reductionPriority turn.1)
    (fun turn => firstFit budget turn.1 (lowerTrace turn.1.rows turn.1) =
        firstFit budget d (lowerTrace d.rows d) ∧
      (turn.2 = false → roundTrace reductionPriority turn.1 = []))
    (fun turn hP htest => by
      obtain ⟨hfits, -⟩ := goesOn_iff.mp htest
      refine ⟨(firstFit_lowerRound hfits).trans hP.1, fun hgo => ?_⟩
      rw [lowerRound_eq hfits] at hgo ⊢
      have hnil : roundTrace reductionPriority turn.1 = [] := by simpa using hgo
      rw [hnil]
      exact hnil) ⟨rfl, by simp⟩ hfuel
  have hresult : turn.1 = firstFit budget d (lowerTrace d.rows d) := by
    rw [← htarget]
    by_cases hfits : turn.1.estimate ≤ budget
    · rw [firstFit_of_fits hfits]
    · have hgo : turn.2 = false := by simpa [goesOn, not_le.mp hfits] using hexit
      rw [lowerTrace_of_stuck (hstuck hgo)]
      rfl
  rw [← hresult]
  exact hturn.map Prod.fst

theorem reduceState_settles (budget : Int) (shape : ResolvedStateShape) :
    Settles (fun fuel => reduceState fuel budget shape)
      (firstFit budget (Draft.ofShape shape) (reductionsAfter (Draft.ofShape shape))) := by
  have hloop := lowerLimits_settles budget (omitWhileOver budget omitPriority (Draft.ofShape shape))
  have hresult := hloop.map (omitWhileOver budget reductionPriority)
  have heq : omitWhileOver budget reductionPriority
      (firstFit budget (omitWhileOver budget omitPriority (Draft.ofShape shape))
        (lowerTrace (omitWhileOver budget omitPriority (Draft.ofShape shape)).rows
          (omitWhileOver budget omitPriority (Draft.ofShape shape)))) =
      firstFit budget (Draft.ofShape shape) (reductionsAfter (Draft.ofShape shape)) := by
    unfold reductionsAfter
    simp only [omitWhileOver_eq]
    rw [append_assoc, firstFit_append]
    split
    case isTrue hfits => rw [firstFit_of_fits hfits, firstFit_of_fits hfits]
    case isFalse hover =>
      rw [firstFit_eq_last hover, firstFit_append]
      split
      case isTrue hfits => rw [firstFit_of_fits hfits]
      case isFalse hover => rw [firstFit_eq_last hover]
  rw [← heq]
  exact hresult

end

end Workbay.Reading
