import Mathlib.Tactic.Linarith
import Mathlib.Tactic.Ring
import Workbay.Wave.Admission

/-!
# What an admission rests on

A submission is admitted only when everything is measured, and it then fits with what is pending. Less
is admitted as well, and what was admitted one after the other fits at once where no estimate was too
low.
-/

namespace Workbay.Wave

open List

variable {gauges measuredCost : Gauges} {pending : Pending}

variable {n : Int} {costs a candidate : Costs} {entry : Option Gauges}

theorem finiteInteger_nonneg {value : Option GaugeValue} (h : finiteInteger value = some n) :
    0 ≤ n := by
  obtain ⟨q, hq, rfl⟩ := Option.map_eq_some_iff.mp h
  refine Rat.num_nonneg.mpr ?_
  unfold finiteNumber at hq
  split at hq
  · split at hq
    · cases hq
    · next hn =>
      cases hq
      exact_mod_cast Int.not_lt.mp hn
  · split at hq
    · cases hq
    · next hn =>
      cases hq
      exact not_lt.mp fun hlt => hn (.inl hlt)
  · cases hq

/-- Nothing less than nothing. -/
def Costs.Nonneg (a : Costs) : Prop := (⟨0, 0, 0⟩ : Costs).Le a

theorem candidateCosts_ok : candidateCosts measuredCost = .ok costs ↔
    finiteInteger (measuredCost.get? "pids") = some costs.pids ∧
      finiteInteger (measuredCost.get? "anon_bytes") = some costs.anonBytes ∧
        finiteInteger (measuredCost.get? "disk_bytes") = some costs.diskBytes := by
  unfold candidateCosts
  obtain ⟨pids, anonBytes, diskBytes⟩ := costs
  constructor
  · intro h
    split at h
    · cases h
    · cases h
    · cases h
    · next hpids hanon hdisk =>
      cases h
      exact ⟨hpids, hanon, hdisk⟩
  · rintro ⟨hpids, hanon, hdisk⟩
    rw [hpids, hanon, hdisk]

theorem candidateCosts_nonneg (h : candidateCosts measuredCost = .ok costs) : costs.Nonneg := by
  obtain ⟨hpids, hanon, hdisk⟩ := candidateCosts_ok.mp h
  exact ⟨finiteInteger_nonneg hpids, finiteInteger_nonneg hanon, finiteInteger_nonneg hdisk⟩

theorem project_ok {p : Projection} : project gauges pending measuredCost = .ok p ↔
    (∀ g ∈ requiredGauges, isMeasured gauges g.1 g.2.1 = true) ∧
      limitValue gauges "pids_max" = some p.pidsMax ∧
      limitValue gauges "memory_max_bytes" = some p.memoryMax ∧
      candidateCosts measuredCost = .ok p.costs ∧
      pendingResourceCosts pending p.costs = some (p.pending, p.estimates) := by
  unfold project
  obtain ⟨pidsMax, memoryMax, total, estimates, costs⟩ := p
  constructor
  · intro h
    split at h
    · cases h
    next hmeasured =>
    split at h
    · cases h
    · cases h
    next hpids hmemory =>
    split at h
    · cases h
    next hcosts =>
    split at h
    · cases h
    next hpending =>
    cases h
    exact ⟨by simpa using hmeasured, hpids, hmemory, hcosts, hpending⟩
  · rintro ⟨hmeasured, hpids, hmemory, hcosts, hpending⟩
    have hnone : requiredGauges.find? (fun g => !isMeasured gauges g.1 g.2.1) = none := by
      simpa using hmeasured
    simp only [hnone, hpids, hmemory, hcosts, hpending]

/-- The candidate and all pending submissions fit. -/
structure Fits (gauges : Gauges) (pidsMax memoryMax : Limit) (used : Costs) : Prop where
  pids : exceeds (gaugeInteger gauges "pids_current" + used.pids +
    gaugeInteger gauges "pids_reserve") pidsMax = false
  memory : ∃ limit, memoryLimit gauges memoryMax = .ok limit ∧
    ∀ n, limit = some n → gaugeInteger gauges "memory_anon_bytes" + used.anonBytes ≤ n
  disk : gaugeInteger gauges "disk_floor_bytes" ≤
    gaugeInteger gauges "disk_free_bytes" - used.diskBytes

/-- The machine is under no pressure. -/
structure Calm (gauges : Gauges) : Prop where
  headroom : 1 ≤ gaugeInteger gauges "memory_headroom_pct" ∧
    gaugeInteger gauges "memory_headroom_pct" ≤ 100
  memory : gaugeNumber gauges "memory_psi_avg60" ≤ gaugeNumber gauges "memory_psi_max"
  cpu : gaugeNumber gauges "cpu_psi_avg60" ≤ gaugeNumber gauges "cpu_psi_max"

theorem verdict_ok {p : Projection} : (∃ reason, verdict gauges p = .ok reason) ↔
    Calm gauges ∧ Fits gauges p.pidsMax p.memoryMax (p.pending.add p.costs) := by
  have hpids : (p.projected gauges).pids =
      gaugeInteger gauges "pids_current" + (p.pending.add p.costs).pids := Int.add_assoc _ _ _
  have hanon : (p.projected gauges).anonBytes =
      gaugeInteger gauges "memory_anon_bytes" + (p.pending.add p.costs).anonBytes :=
    Int.add_assoc _ _ _
  have hdisk : (p.projected gauges).diskBytes = (p.pending.add p.costs).diskBytes := rfl
  unfold verdict
  simp only [hpids, hanon, hdisk]
  constructor
  · rintro ⟨reason, h⟩
    split at h
    · cases h
    next hheadroom =>
    split at h
    · cases h
    next hpidsMax =>
    split at h
    · cases h
    next limit hlimit =>
    split at h
    · cases h
    next hmemory =>
    split at h
    · cases h
    next hpsi =>
    split at h
    · cases h
    next hcpu =>
    split at h
    · cases h
    next hdisk =>
    refine ⟨⟨not_not.mp hheadroom, not_lt.mp hpsi, not_lt.mp hcpu⟩,
      by simpa using hpidsMax, ⟨limit, hlimit, fun n hn => ?_⟩, not_lt.mp hdisk⟩
    subst hn
    simpa using hmemory
  · rintro ⟨⟨hheadroom, hpsi, hcpu⟩, ⟨hpidsMax, ⟨limit, hlimit, hmemory⟩, hdisk⟩⟩
    have hany : (limit.any fun limit => decide (limit < gaugeInteger gauges "memory_anon_bytes" +
        (p.pending.add p.costs).anonBytes)) = false := by
      cases limit with
      | none => rfl
      | some n => simpa using hmemory n rfl
    rw [if_neg (not_not.mpr hheadroom), if_neg (by simp [hpidsMax]), hlimit]
    simp only [hany, Bool.false_eq_true, if_false, if_neg (not_lt.mpr hpsi),
      if_neg (not_lt.mpr hcpu), if_neg (not_lt.mpr hdisk)]
    split
    · exact ⟨_, rfl⟩
    · exact ⟨_, rfl⟩

theorem decideAdmission_admitted : (decideAdmission gauges pending measuredCost).admitted = true ↔
    ∃ p, project gauges pending measuredCost = .ok p ∧ Calm gauges ∧
      Fits gauges p.pidsMax p.memoryMax (p.pending.add p.costs) := by
  unfold decideAdmission
  cases hproject : project gauges pending measuredCost with
  | error reason => simp
  | ok p =>
    simp only [Except.ok.injEq, exists_eq_left', ← verdict_ok]
    cases verdict gauges p with
    | error reason => simp
    | ok reason => simp

theorem Costs.Le.trans {b c : Costs} (h : a.Le b) (h' : b.Le c) : a.Le c :=
  ⟨h.1.trans h'.1, h.2.1.trans h'.2.1, h.2.2.trans h'.2.2⟩

theorem Costs.Le.refl (a : Costs) : a.Le a := ⟨le_refl _, le_refl _, le_refl _⟩

theorem Costs.Le.add {b a' b' : Costs} (h : a'.Le a) (h' : b'.Le b) : (a'.add b').Le (a.add b) :=
  ⟨Int.add_le_add h.1 h'.1, Int.add_le_add h.2.1 h'.2.1, Int.add_le_add h.2.2 h'.2.2⟩

theorem Costs.Le.scale {a' : Costs} {m : Int} (hm : 0 ≤ m) (hmn : m ≤ n) (ha : a'.Nonneg)
    (h : a'.Le a) : (a'.scale m).Le (a.scale n) := by
  have hmul : ∀ {x y : Int}, 0 ≤ x → x ≤ y → m * x ≤ n * y := fun hx hxy =>
    Int.mul_le_mul hmn hxy hx (hm.trans hmn)
  exact ⟨hmul ha.1 h.1, hmul ha.2.1 h.2.1, hmul ha.2.2 h.2.2⟩

theorem exceeds_mono {m : Int} {limit : Limit} (hmn : m ≤ n) (h : exceeds n limit = false) :
    exceeds m limit = false := by
  cases limit with
  | max => rfl
  | upTo k =>
    simp only [exceeds, decide_eq_false_iff_not, not_lt] at h ⊢
    omega

theorem Fits.mono {pidsMax memoryMax : Limit} {used used' : Costs} (hle : used'.Le used)
    (h : Fits gauges pidsMax memoryMax used) : Fits gauges pidsMax memoryMax used' := by
  obtain ⟨hpids, ⟨limit, hlimit, hmemory⟩, hdisk⟩ := h
  refine ⟨exceeds_mono ?_ hpids, ⟨limit, hlimit, fun n hn => ?_⟩, ?_⟩
  · have := hle.1
    omega
  · have hanon := hmemory n hn
    have := hle.2.1
    omega
  · have := hle.2.2
    omega

theorem entryCost_mono {entry : Gauges} {key : String} {estimate estimate' : Int}
    (hle : estimate' ≤ estimate) (h : entryCost entry key estimate = some n) :
    ∃ n', entryCost entry key estimate' = some n' ∧ n' ≤ n := by
  unfold entryCost at h ⊢
  cases hget : entry.get? key with
  | none =>
    rw [hget] at h
    cases h
    exact ⟨_, rfl, hle⟩
  | some value =>
    rw [hget] at h
    exact ⟨n, h, le_refl _⟩

theorem entryCosts_some : entryCosts entry candidate = some costs ↔ ∃ g, entry = some g ∧
      entryCost g "pids" candidate.pids = some costs.pids ∧
        entryCost g "anon_bytes" candidate.anonBytes = some costs.anonBytes ∧
          entryCost g "disk_bytes" candidate.diskBytes = some costs.diskBytes := by
  obtain ⟨pids, anonBytes, diskBytes⟩ := costs
  unfold entryCosts
  cases entry with
  | none => simp
  | some g =>
    simp only [Option.bind_some, Option.some.injEq, exists_eq_left']
    constructor
    · intro h
      split at h
      · next hpids hanon hdisk =>
        cases h
        exact ⟨hpids, hanon, hdisk⟩
      · cases h
    · rintro ⟨hpids, hanon, hdisk⟩
      rw [hpids, hanon, hdisk]

theorem entryCosts_mono {candidate' : Costs} (hle : candidate'.Le candidate)
    (h : entryCosts entry candidate = some costs) :
    ∃ costs', entryCosts entry candidate' = some costs' ∧ costs'.Le costs := by
  obtain ⟨g, hg, hpids, hanon, hdisk⟩ := entryCosts_some.mp h
  obtain ⟨pids, hpids', hpidsLe⟩ := entryCost_mono hle.1 hpids
  obtain ⟨anonBytes, hanon', hanonLe⟩ := entryCost_mono hle.2.1 hanon
  obtain ⟨diskBytes, hdisk', hdiskLe⟩ := entryCost_mono hle.2.2 hdisk
  exact ⟨⟨pids, anonBytes, diskBytes⟩, entryCosts_some.mpr ⟨g, hg, hpids', hanon', hdisk'⟩,
    hpidsLe, hanonLe, hdiskLe⟩

theorem entryCost_nonneg {entry : Gauges} {key : String} {estimate : Int} (he : 0 ≤ estimate)
    (h : entryCost entry key estimate = some n) : 0 ≤ n := by
  unfold entryCost at h
  split at h
  · cases h
    exact he
  · exact finiteInteger_nonneg h

theorem entryCosts_nonneg (hc : candidate.Nonneg) (h : entryCosts entry candidate = some costs) :
    costs.Nonneg := by
  obtain ⟨g, -, hpids, hanon, hdisk⟩ := entryCosts_some.mp h
  exact ⟨entryCost_nonneg hc.1 hpids, entryCost_nonneg hc.2.1 hanon, entryCost_nonneg hc.2.2 hdisk⟩

/-- Fewer pending submissions: a smaller number, or some of the entries. -/
inductive Pending.Fewer : Pending → Pending → Prop where
  | count {m n : Int} (hm : 0 ≤ m) (hmn : m ≤ n) : Fewer (.count m) (.count n)
  | entries {es es' : List (Option Gauges)} (h : es'.Sublist es) : Fewer (.entries es') (.entries es)

theorem mapM_entryCosts_mono {es es' : List (Option Gauges)} {candidate' : Costs}
    (hsub : es'.Sublist es) (hnonneg : candidate.Nonneg) (hle : candidate'.Le candidate) :
    ∀ {costs : List Costs}, (es.mapM fun entry => entryCosts entry candidate) = some costs →
      ∃ costs', (es'.mapM fun entry => entryCosts entry candidate') = some costs' ∧
        (Costs.sum costs').Le (Costs.sum costs) := by
  induction hsub with
  | slnil =>
    intro costs h
    cases h
    exact ⟨[], rfl, Costs.Le.refl _⟩
  | cons entry _ ih =>
    intro costs h
    rw [mapM_cons] at h
    obtain ⟨first, hfirst, h⟩ := Option.bind_eq_some_iff.mp h
    obtain ⟨rest, hrest, h⟩ := Option.bind_eq_some_iff.mp h
    cases h
    obtain ⟨costs', hcosts', hsum⟩ := ih hrest
    refine ⟨costs', hcosts', hsum.trans ?_⟩
    have hpos := entryCosts_nonneg hnonneg hfirst
    show (Costs.sum rest).Le (first.add (Costs.sum rest))
    refine ⟨?_, ?_, ?_⟩
    · exact Int.le_add_of_nonneg_left hpos.1
    · exact Int.le_add_of_nonneg_left hpos.2.1
    · exact Int.le_add_of_nonneg_left hpos.2.2
  | cons_cons entry _ ih =>
    intro costs h
    rw [mapM_cons] at h
    obtain ⟨first, hfirst, h⟩ := Option.bind_eq_some_iff.mp h
    obtain ⟨rest, hrest, h⟩ := Option.bind_eq_some_iff.mp h
    cases h
    obtain ⟨first', hfirst', hfirstLe⟩ := entryCosts_mono hle hfirst
    obtain ⟨rest', hrest', hrestLe⟩ := ih hrest
    refine ⟨first' :: rest', ?_, hfirstLe.add hrestLe⟩
    rw [mapM_cons, hfirst', hrest']
    rfl

theorem pendingResourceCosts_count {answer : Costs × List String}
    (h : pendingResourceCosts (.count n) candidate = some answer) :
    answer = (candidate.scale n, []) := by
  by_cases hn : n < 0
  · rw [pendingResourceCosts, if_pos hn] at h
    cases h
  · rw [pendingResourceCosts, if_neg hn] at h
    exact (Option.some.inj h).symm

theorem pendingResourceCosts_mono {pending' : Pending} {costs' total : Costs}
    {estimates : List String} (hfewer : pending'.Fewer pending) (hnonneg : costs.Nonneg)
    (hnonneg' : costs'.Nonneg) (hle : costs'.Le costs)
    (h : pendingResourceCosts pending costs = some (total, estimates)) :
    ∃ total' estimates', pendingResourceCosts pending' costs' = some (total', estimates') ∧
      total'.Le total := by
  cases hfewer with
  | count hm hmn =>
    obtain ⟨rfl, -⟩ := Prod.mk.inj (pendingResourceCosts_count h)
    exact ⟨_, _, if_neg (not_lt.mpr hm), hle.scale hm hmn hnonneg'⟩
  | entries hsub =>
    unfold pendingResourceCosts at h ⊢
    obtain ⟨all, hall, heq⟩ := Option.map_eq_some_iff.mp h
    cases heq
    obtain ⟨all', hall', hsum⟩ := mapM_entryCosts_mono hsub hnonneg hle hall
    simp only [hall', Option.map_some]
    exact ⟨_, _, rfl, hsum⟩

theorem decideAdmission_mono {pending' : Pending} {measuredCost' : Gauges} {costs' : Costs}
    (hfewer : pending'.Fewer pending) (hcosts : candidateCosts measuredCost = .ok costs)
    (hcosts' : candidateCosts measuredCost' = .ok costs') (hle : costs'.Le costs)
    (h : (decideAdmission gauges pending measuredCost).admitted = true) :
    (decideAdmission gauges pending' measuredCost').admitted = true := by
  obtain ⟨p, hproject, hcalm, hfits⟩ := decideAdmission_admitted.mp h
  obtain ⟨hmeasured, hpids, hmemory, hcandidate, hpending⟩ := project_ok.mp hproject
  obtain rfl : p.costs = costs := Except.ok.inj (hcandidate.symm.trans hcosts)
  obtain ⟨total', estimates', hpending', htotal⟩ := pendingResourceCosts_mono hfewer
    (candidateCosts_nonneg hcosts) (candidateCosts_nonneg hcosts') hle hpending
  exact decideAdmission_admitted.mpr ⟨⟨p.pidsMax, p.memoryMax, total', estimates', costs'⟩,
    project_ok.mpr ⟨hmeasured, hpids, hmemory, hcosts', hpending'⟩, hcalm,
    hfits.mono (htotal.add hle)⟩

/-- What an entry says of one thing is right; an estimate is high enough. -/
def CoversThing (entry : Gauges) (key : String) (estimate cost : Int) : Prop :=
  finiteInteger (entry.get? key) = some cost ∨
    entry.get? key = none ∧ cost ≤ estimate

/-- An entry covers what a submission needs. -/
def CoversEntry (candidate : Costs) (entry : Option Gauges) (costs : Costs) : Prop :=
  ∃ g, entry = some g ∧ CoversThing g "pids" candidate.pids costs.pids ∧
    CoversThing g "anon_bytes" candidate.anonBytes costs.anonBytes ∧
      CoversThing g "disk_bytes" candidate.diskBytes costs.diskBytes

/-- What is said of the pending submissions covers what they need: their number does, when none of them
needs more than the candidate. -/
inductive Pending.Covers (candidate : Costs) : Pending → List Costs → Prop where
  | count {predecessors : List Costs} (h : ∀ costs ∈ predecessors, costs.Le candidate) :
    Covers candidate (.count predecessors.length) predecessors
  | entries {es : List (Option Gauges)} {predecessors : List Costs}
    (h : List.Forall₂ (CoversEntry candidate) es predecessors) :
    Covers candidate (.entries es) predecessors

theorem CoversThing.le {entry : Gauges} {key : String} {estimate cost : Int}
    (h : CoversThing entry key estimate cost) (hn : entryCost entry key estimate = some n) :
    cost ≤ n := by
  unfold entryCost at hn
  rcases h with h | ⟨hnone, hle⟩
  · cases hget : entry.get? key with
    | none =>
      rw [hget] at h
      cases h
    | some value =>
      rw [hget] at h hn
      exact le_of_eq (Option.some.inj (h.symm.trans hn))
  · rw [hnone] at hn
    cases hn
    exact hle

theorem Costs.sum_le_scale {predecessors : List Costs}
    (h : ∀ costs ∈ predecessors, costs.Le candidate) :
    (Costs.sum predecessors).Le (candidate.scale predecessors.length) := by
  induction predecessors with
  | nil => simp [Costs.sum, Costs.scale, Costs.Le]
  | cons first rest ih =>
    have hrest := ih fun costs hc => h costs (mem_cons_of_mem _ hc)
    have hfirst := h first mem_cons_self
    have hsucc : candidate.scale ((first :: rest).length : Int) =
        candidate.add (candidate.scale (rest.length : Int)) := by
      simp only [Costs.scale, Costs.add, length_cons, Nat.cast_add, Nat.cast_one, Costs.mk.injEq]
      refine ⟨?_, ?_, ?_⟩ <;> ring
    rw [hsucc]
    exact hfirst.add hrest

theorem Pending.Covers.le {total : Costs} {predecessors : List Costs} {estimates : List String}
    (h : pending.Covers candidate predecessors)
    (hpending : pendingResourceCosts pending candidate = some (total, estimates)) :
    (Costs.sum predecessors).Le total := by
  cases h with
  | count h =>
    obtain ⟨rfl, -⟩ := Prod.mk.inj (pendingResourceCosts_count hpending)
    exact Costs.sum_le_scale h
  | entries h =>
    unfold pendingResourceCosts at hpending
    obtain ⟨all, hall, heq⟩ := Option.map_eq_some_iff.mp hpending
    cases heq
    clear hpending
    induction h generalizing all with
    | nil =>
      cases hall
      exact Costs.Le.refl _
    | cons hentry _ ih =>
      rw [mapM_cons] at hall
      obtain ⟨first, hfirst, hall⟩ := Option.bind_eq_some_iff.mp hall
      obtain ⟨rest, hrest, hall⟩ := Option.bind_eq_some_iff.mp hall
      cases hall
      obtain ⟨g, hg, hpids, hanon, hdisk⟩ := hentry
      obtain ⟨g', hg', hpids', hanon', hdisk'⟩ := entryCosts_some.mp hfirst
      obtain rfl : g = g' := Option.some.inj (hg.symm.trans hg')
      exact Costs.Le.add ⟨hpids.le hpids', hanon.le hanon', hdisk.le hdisk'⟩ (ih rest hrest)

theorem Costs.sum_concat (predecessors : List Costs) (last : Costs) :
    Costs.sum (predecessors ++ [last]) = (Costs.sum predecessors).add last := by
  induction predecessors with
  | nil => simp [Costs.sum, Costs.add]
  | cons first rest ih =>
    rw [cons_append, Costs.sum, ih, Costs.sum]
    simp [Costs.add, Int.add_assoc]

/-- A candidate, with what was pending and what it was measured to need. -/
structure Candidate where
  pending : Pending
  measuredCost : Gauges
  costs : Costs

/-- Candidates that were admitted one after the other, on the same gauges. -/
def AdmittedInTurn (gauges : Gauges) (candidates : List Candidate) : Prop :=
  ∀ c ∈ candidates, candidateCosts c.measuredCost = .ok c.costs ∧
    (decideAdmission gauges c.pending c.measuredCost).admitted = true

/-- Nothing is admitted without measurements, less is admitted as well, and candidates that were
admitted in turn fit at once if the last one saw enough of the others. -/
theorem decideAdmission_sound (gauges : Gauges) :
    (∀ pending measuredCost, (decideAdmission gauges pending measuredCost).admitted = true →
      (∀ g ∈ requiredGauges, isMeasured gauges g.1 g.2.1 = true) ∧
      (limitValue gauges "pids_max").isSome ∧
      (∃ memoryMax, limitValue gauges "memory_max_bytes" = some memoryMax ∧
        (memoryMax = .max → isExempt gauges = true ∨
          (finiteInteger (gauges.get? "memory_available_bytes")).isSome)) ∧
      (1 ≤ gaugeInteger gauges "memory_headroom_pct" ∧
        gaugeInteger gauges "memory_headroom_pct" ≤ 100) ∧
      ∃ costs, candidateCosts measuredCost = .ok costs ∧
        (pendingResourceCosts pending costs).isSome) ∧
    (∀ pending pending' measuredCost measuredCost' costs costs', pending'.Fewer pending →
      candidateCosts measuredCost = .ok costs → candidateCosts measuredCost' = .ok costs' →
        costs'.Le costs → (decideAdmission gauges pending measuredCost).admitted = true →
          (decideAdmission gauges pending' measuredCost').admitted = true) ∧
    ∀ before last, AdmittedInTurn gauges (before ++ [last]) →
      last.pending.Covers last.costs (before.map Candidate.costs) →
        ∃ pidsMax memoryMax, limitValue gauges "pids_max" = some pidsMax ∧
          limitValue gauges "memory_max_bytes" = some memoryMax ∧
            Fits gauges pidsMax memoryMax
              (Costs.sum ((before ++ [last]).map Candidate.costs)) := by
  refine ⟨fun pending measuredCost h => ?_, fun _ _ _ _ _ _ hfewer hcosts hcosts' hle h =>
    decideAdmission_mono hfewer hcosts hcosts' hle h, fun before last hturn hcovers => ?_⟩
  · obtain ⟨p, hproject, hcalm, hfits⟩ := decideAdmission_admitted.mp h
    obtain ⟨hmeasured, hpids, hmemory, hcosts, hpending⟩ := project_ok.mp hproject
    refine ⟨hmeasured, by rw [hpids]; rfl, ⟨p.memoryMax, hmemory, fun hmax => ?_⟩, hcalm.headroom,
      p.costs, hcosts, by rw [hpending]; rfl⟩
    obtain ⟨limit, hlimit, -⟩ := hfits.memory
    rw [hmax] at hlimit
    unfold memoryLimit at hlimit
    dsimp only at hlimit
    split at hlimit
    · next hexempt => exact .inl hexempt
    · split at hlimit
      · cases hlimit
      · next havailable => exact .inr (by rw [havailable]; rfl)
  · obtain ⟨hcosts, hadmitted⟩ := hturn last (by simp)
    obtain ⟨p, hproject, -, hfits⟩ := decideAdmission_admitted.mp hadmitted
    obtain ⟨-, hpids, hmemory, hcandidate, hpending⟩ := project_ok.mp hproject
    obtain heq : p.costs = last.costs := Except.ok.inj (hcandidate.symm.trans hcosts)
    rw [heq] at hpending hfits
    refine ⟨p.pidsMax, p.memoryMax, hpids, hmemory, hfits.mono ?_⟩
    rw [map_append, map_singleton, Costs.sum_concat]
    exact (hcovers.le hpending).add (Costs.Le.refl _)

/-- A machine with room for ten more processes. -/
def roomyGauges : Gauges := [
  ("pids_current", .int 0), ("memory_anon_bytes", .int 0), ("memory_psi_avg60", .int 0),
  ("cpu_psi_avg60", .int 0), ("disk_free_bytes", .int 100), ("disk_floor_bytes", .int 0),
  ("memory_headroom_pct", .int 90), ("memory_psi_max", .int 10), ("cpu_psi_max", .int 10),
  ("pids_reserve", .int 1), ("memory_reserve_bytes", .int 1), ("pids_max", .int 11),
  ("memory_max_bytes", .int 100)]

/-- Costs of some processes and nothing else. -/
def processes (n : Int) : Gauges := [("pids", .int n), ("anon_bytes", .int 0), ("disk_bytes", .int 0)]

/-- A small candidate makes all pending ones look small. -/
theorem admitted_in_turn_not_fit :
    ¬ ∀ (gauges : Gauges) (candidates : List Candidate), candidates ≠ [] →
      AdmittedInTurn gauges candidates →
      (∀ entry ∈ candidates.zipIdx, entry.1.pending = .count entry.2) →
      ∃ pidsMax memoryMax, limitValue gauges "pids_max" = some pidsMax ∧
        limitValue gauges "memory_max_bytes" = some memoryMax ∧
          Fits gauges pidsMax memoryMax (Costs.sum (candidates.map Candidate.costs)) := by
  intro h
  have hfirst : candidateCosts (processes 10) = .ok ⟨10, 0, 0⟩ ∧
      (decideAdmission roomyGauges (.count 0) (processes 10)).admitted = true := by
    decide +kernel
  have hsecond : candidateCosts (processes 1) = .ok ⟨1, 0, 0⟩ ∧
      (decideAdmission roomyGauges (.count 1) (processes 1)).admitted = true := by
    decide +kernel
  obtain ⟨pidsMax, memoryMax, hpids, -, hfits⟩ := h roomyGauges
    [⟨.count 0, processes 10, ⟨10, 0, 0⟩⟩, ⟨.count 1, processes 1, ⟨1, 0, 0⟩⟩]
    (cons_ne_nil _ _)
    (forall_mem_cons.mpr ⟨hfirst, forall_mem_singleton.mpr hsecond⟩)
    (forall_mem_cons.mpr ⟨rfl, forall_mem_singleton.mpr rfl⟩)
  have hlimit : limitValue roomyGauges "pids_max" = some (.upTo 11) := by decide +kernel
  obtain rfl : pidsMax = .upTo 11 := Option.some.inj (hpids.symm.trans hlimit)
  have hexceeds : exceeds (gaugeInteger roomyGauges "pids_current" +
      (Costs.sum [⟨10, 0, 0⟩, ⟨1, 0, 0⟩]).pids + gaugeInteger roomyGauges "pids_reserve")
      (.upTo 11) = true := by
    decide +kernel
  have hno := hfits.pids
  simp only [map_cons, map_nil] at hno
  rw [hno] at hexceeds
  cases hexceeds

end Workbay.Wave
