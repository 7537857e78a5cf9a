import Workbay.Reading.Proofs.TrimProofs

/-!
# The plan of a session read

A plan is sound if it raises no limit, keeps what the profile requires, reports its own size, reports
that it is over the budget only when nothing is left to reduce, and counts every limited section that
will be fetched. The first three always hold.
-/

namespace Workbay.Reading

open List

open Effects (Settles)

namespace SessionPlan

/-- The sections that a plan leaves out of the state. -/
def stateOmissions (r : SessionPlan) : List Section :=
  r.plan.omittedSections.filterMap fun omission =>
    match omission with
    | .state s => some s
    | _ => none

theorem mem_stateOmissions {r : SessionPlan} {s : Section} :
    s ∈ r.stateOmissions ↔ Omission.state s ∈ r.plan.omittedSections := by
  unfold stateOmissions
  rw [mem_filterMap]
  constructor
  · rintro ⟨omission, hmem, heq⟩
    cases omission with
    | state t =>
      cases heq
      exact hmem
    | openFindings | touchedFiles | continuation => cases heq
  · intro hmem
    exact ⟨.state s, hmem, rfl⟩

/-- The sections whose rows a plan counts. -/
def priced (r : SessionPlan) : List Section := pricedSections r.state r.stateOmissions

theorem mem_priced {r : SessionPlan} {s : Section} :
    s ∈ r.priced ↔ isActive r.state s = true ∧ s ∉ r.stateOmissions := by
  simp [priced, pricedSections, Section.mem_all]

/-- No permitted reduction is left: summaries throughout, only required sections, every limit at its
floor. -/
structure Exhausted (r : SessionPlan) : Prop where
  detail : r.state.detail = "summary"
  sections : ∀ s ∈ r.priced, s ∈ requiredSectionsFor r.state.appliedProfile
  limits : ∀ s ∈ r.priced, r.state.limit s ≤ 1
  continuation : Omission.continuation ∈ r.plan.omittedSections
  findings : Omission.openFindings ∈ r.plan.omittedSections ∨
    (r.addOn.openFindingsDetail = "summary" ∧ r.addOn.openFindingsLimit ≤ 1)
  files : Omission.touchedFiles ∈ r.plan.omittedSections ∨ r.addOn.topNTouchedFiles ≤ 2

/-- What a plan promises about the shapes that it was made for. -/
structure Sound (lower : String → String) (shape : ResolvedStateShape)
    (addOn : ResolvedSessionAddOnShape) (r : SessionPlan) : Prop where
  limits : ∀ s, r.state.limit s ≤ shape.limit s
  findings : r.addOn.openFindingsLimit ≤ addOn.openFindingsLimit
  files : r.addOn.topNTouchedFiles ≤ addOn.topNTouchedFiles
  required : ∀ s ∈ requiredSectionsFor shape.appliedProfile,
    Omission.state s ∉ r.plan.omittedSections
  estimate : r.plan.estimatedAfterBytes = estimateStateBytes r.state r.stateOmissions +
    estimateSessionAddOnBytes r.addOn
      (decide (Omission.openFindings ∈ r.plan.omittedSections))
      (decide (Omission.touchedFiles ∈ r.plan.omittedSections))
  exhausted : r.plan.overBudgetAfter = true → r.Exhausted
  fetched : ∀ s : Section, wants lower r.state.sections (r.plan.omittedSections.map Omission.text)
    s.text = true → s ∈ r.priced

end SessionPlan

/-- Where a reduction of the state that is not the last fits the budget, the add-ons at their floors
fit beside it. -/
def Roomy (shape : ResolvedStateShape) (addOn : ResolvedSessionAddOnShape) (budget : Option Int) :
    Prop :=
  ∀ bytes, budget = some bytes → ∀ d ∈ reductions shape, ¬ d.Spent → d.estimate ≤ bytes →
    d.estimate + addOnFloor addOn ≤ bytes

/-- A name that is a limited section in lower case is listed in lower case too, unless the identity
alone is read. -/
def LowerCase (lower : String → String) (shape : ResolvedStateShape) : Prop :=
  ∀ sections, shape.sections = some sections →
    "identity" ∈ (tokens sections).map lower ∨
      ∀ token ∈ tokens sections, ∀ s : Section, lower token = s.text → s.text ∈ tokens sections

/-! ## What is fetched is counted -/

theorem Omission.text_injective {a b : Omission} (h : a.text = b.text) : a = b := by
  cases a with
  | state s =>
    cases b with
    | state t => rw [Section.text_injective h]
    | openFindings | touchedFiles | continuation => cases s <;> exact absurd h (by decide)
  | openFindings | touchedFiles | continuation =>
    cases b with
    | state t => cases t <;> exact absurd h (by decide)
    | openFindings | touchedFiles | continuation =>
      first | rfl | exact absurd h (by decide)

theorem mem_validSections (s : Section) : s.text ∈ validSections := by cases s <;> decide

theorem parseSections_some (lower : String → String) (text : String) :
    parseSections lower (some text) =
      if "identity" ∈ (tokens text).map lower then some []
      else some (((tokens text).map lower).filter (· ∈ validSections)) := rfl

variable {lower : String → String}

theorem wants_iff {sections : Option String} {omitted : List Omission} {s : Section} :
    wants lower sections (omitted.map Omission.text) s.text = true ↔
      Omission.state s ∉ omitted ∧ ∀ text, sections = some text →
        "identity" ∉ (tokens text).map lower ∧ s.text ∈ (tokens text).map lower := by
  have homitted : s.text ∈ omitted.map Omission.text ↔ Omission.state s ∈ omitted := by
    constructor
    · intro hmem
      obtain ⟨omission, ho, htext⟩ := mem_map.mp hmem
      have heq : omission = .state s := Omission.text_injective htext
      rw [← heq]
      exact ho
    · intro hmem
      exact mem_map.mpr ⟨_, hmem, rfl⟩
  unfold wants
  by_cases ho : Omission.state s ∈ omitted
  · simp [homitted, ho]
  · cases sections with
    | none => simp [homitted, ho, parseSections]
    | some text =>
      have hvalid := mem_validSections s
      rw [parseSections_some]
      generalize hparts : (tokens text).map lower = parts
      have hsome : ∀ P : List String → Prop,
          (∀ text', some text = some text' → P ((tokens text').map lower)) ↔ P parts := by
        intro P
        simp [hparts]
      rw [hsome fun parts => "identity" ∉ parts ∧ s.text ∈ parts]
      by_cases hidentity : "identity" ∈ parts
      · simp [homitted, ho, hidentity]
      · simp [homitted, ho, hidentity, hvalid]

variable {shape : ResolvedStateShape} {d : Draft} {addOn : ResolvedSessionAddOnShape} {budget : Int}

theorem isActive_iff {s : Section} : isActive shape s = true ↔ ∀ text, shape.sections = some text →
      "identity" ∉ tokens text ∧ s.text ∈ tokens text := by
  unfold isActive
  cases shape.sections with
  | none => simp
  | some text =>
    by_cases hidentity : "identity" ∈ tokens text
    · simp [hidentity]
    · simp [hidentity]

theorem fetched_iff (hlower : lower "identity" = "identity") (shape : ResolvedStateShape)
    (r : SessionPlan) (hsections : r.state.sections = shape.sections)
    (hactive : ∀ s ∈ r.stateOmissions, isActive shape s = true) :
    (∀ s : Section, wants lower r.state.sections (r.plan.omittedSections.map Omission.text)
      s.text = true → s ∈ r.priced) ↔ LowerCase lower shape := by
  have hsame : ∀ s, isActive r.state s = isActive shape s := isActive_congr hsections
  constructor
  · intro hfetched text htext
    by_cases hidentity : "identity" ∈ (tokens text).map lower
    · exact .inl hidentity
    · refine .inr fun token htoken s heq => ?_
      have hcounted : isActive shape s = true := by
        by_cases ho : s ∈ r.stateOmissions
        · exact hactive s ho
        · have hwants : wants lower r.state.sections (r.plan.omittedSections.map Omission.text)
              s.text = true := by
            refine wants_iff.mpr ⟨fun hmem => ho (SessionPlan.mem_stateOmissions.mpr hmem), ?_⟩
            intro text' htext'
            rw [hsections, htext] at htext'
            cases htext'
            exact ⟨hidentity, mem_map.mpr ⟨token, htoken, heq⟩⟩
          rw [← hsame s]
          exact (SessionPlan.mem_priced.mp (hfetched s hwants)).1
      exact (isActive_iff.mp hcounted text htext).2
  · intro hcase s hwants
    obtain ⟨ho, htokens⟩ := wants_iff.mp hwants
    refine SessionPlan.mem_priced.mpr ⟨?_, fun hmem => ho (SessionPlan.mem_stateOmissions.mp hmem)⟩
    rw [hsame s]
    refine isActive_iff.mpr fun text htext => ?_
    obtain ⟨hidentity, hmem⟩ := htokens text (hsections.trans htext)
    obtain ⟨token, htoken, heq⟩ := mem_map.mp hmem
    refine ⟨fun hid => hidentity (mem_map.mpr ⟨_, hid, hlower⟩), ?_⟩
    rcases hcase text htext with hid | hlisted
    · exact absurd hid hidentity
    · exact hlisted token htoken s heq

/-! ## The add-ons as they were asked for -/

theorem mem_preOmitted_findings (addOn : ResolvedSessionAddOnShape) :
    Omission.openFindings ∈ preOmitted addOn ↔ addOn.openFindingsLimit ≤ 0 := by
  unfold preOmitted
  by_cases h1 : addOn.openFindingsLimit ≤ 0 <;> by_cases h2 : addOn.topNTouchedFiles ≤ 0 <;>
    simp [h1, h2]

theorem mem_preOmitted_files (addOn : ResolvedSessionAddOnShape) :
    Omission.touchedFiles ∈ preOmitted addOn ↔ addOn.topNTouchedFiles ≤ 0 := by
  unfold preOmitted
  by_cases h1 : addOn.openFindingsLimit ≤ 0 <;> by_cases h2 : addOn.topNTouchedFiles ≤ 0 <;>
    simp [h1, h2]

theorem state_notMem_preOmitted (addOn : ResolvedSessionAddOnShape) (s : Section) :
    Omission.state s ∉ preOmitted addOn := by
  unfold preOmitted
  by_cases h1 : addOn.openFindingsLimit ≤ 0 <;> by_cases h2 : addOn.topNTouchedFiles ≤ 0 <;>
    simp [h1, h2]

theorem estimateSessionAddOnBytes_preOmitted (addOn : ResolvedSessionAddOnShape) :
    estimateSessionAddOnBytes addOn
        (decide (Omission.openFindings ∈ preOmitted addOn))
        (decide (Omission.touchedFiles ∈ preOmitted addOn)) =
      estimateSessionAddOnBytes addOn false false := by
  unfold estimateSessionAddOnBytes
  simp only [mem_preOmitted_findings, mem_preOmitted_files, Bool.and_eq_true, Bool.not_eq_true',
    decide_eq_false_iff_not, decide_eq_true_eq, Bool.not_false, true_and]
  split_ifs <;> omega

theorem addOnFloor_le (addOn : ResolvedSessionAddOnShape) :
    addOnFloor addOn ≤ estimateSessionAddOnBytes addOn false false := by
  have hmarked : (Trim.mk 0 addOn (preOmitted addOn) []).Marked :=
    ⟨mem_preOmitted_findings addOn, mem_preOmitted_files addOn⟩
  have hle := (Trim.Within.refl (Trim.mk 0 addOn (preOmitted addOn) [])).floor_le hmarked
  unfold Trim.compoundBytes at hle
  simp only [estimateSessionAddOnBytes_preOmitted] at hle
  omega

/-- The first draft differs from the shape in its detail only. -/
structure Draft.OfShape (shape : ResolvedStateShape) (d : Draft) : Prop where
  sections : d.shape.sections = shape.sections
  profile : d.shape.appliedProfile = shape.appliedProfile
  limit : ∀ s, d.shape.limit s = shape.limit s
  detail : d.shape.detail = "summary"
  omitted : d.omitted = []

theorem ofShape_spec (shape : ResolvedStateShape) : (Draft.ofShape shape).OfShape shape := by
  unfold Draft.ofShape
  split
  case isTrue h => exact ⟨rfl, rfl, fun _ => rfl, h, rfl⟩
  case isFalse => exact ⟨rfl, rfl, fun s => by cases s <;> rfl, rfl, rfl⟩

theorem perRowBytes_summary_le (detail : String) (s : Section) :
    perRowBytes "summary" s ≤ perRowBytes detail s := by
  unfold perRowBytes
  split
  · split
    · exact le_refl _
    · cases s <;> decide
  case isFalse h => exact absurd rfl h

theorem ofShape_estimate_le (shape : ResolvedStateShape) :
    (Draft.ofShape shape).estimate ≤ estimateStateBytes shape [] := by
  have hspec := ofShape_spec shape
  unfold Draft.estimate
  rw [estimateStateBytes_eq, estimateStateBytes_eq, hspec.omitted]
  have hsum := sum_le_sum (l := Section.all)
    (f := sectionBytes (Draft.ofShape shape).shape []) (g := sectionBytes shape []) fun s _ => by
      unfold sectionBytes
      rw [isActive_congr hspec.sections, hspec.detail, hspec.limit]
      split
      · exact mul_le_mul_of_nonneg_right (perRowBytes_summary_le _ s)
          (le_trans zero_le_one (le_max_left _ _))
      · exact le_refl _
  omega

theorem within_of_mem_reductions (h : d ∈ reductions shape) : (Draft.ofShape shape).Within d := by
  have hpairs := isChain_iff_pairwise.mp (reductions_inOrder shape)
  rcases mem_cons.mp h with rfl | h
  · exact Draft.Within.refl _
  · exact ((pairwise_cons.mp hpairs).1 d h).within

theorem roomy_of_fits {bytes : Int} (h : compoundInitial shape addOn ≤ bytes) :
    Roomy shape addOn (some bytes) := by
  intro bytes' heq d hd _ _
  cases heq
  have hstate := (within_of_mem_reductions hd).estimate_le
  have hfirst := ofShape_estimate_le shape
  have haddOn := addOnFloor_le addOn
  unfold compoundInitial at h
  omega

/-- The planner stops short of the last draft only where it fits, and the draft that it stops at is
the largest that fits. -/
theorem firstFit_reductions
    (hd : d = firstFit budget (Draft.ofShape shape) (reductionsAfter (Draft.ofShape shape))) :
    d ∈ reductions shape ∧ (¬ d.Spent → d.estimate ≤ budget) ∧
      ∀ x ∈ reductions shape, x.estimate ≤ budget → ¬ x.Spent →
        x.estimate ≤ d.estimate ∧ ¬ d.Spent := by
  have hpairs := isChain_iff_pairwise.mp (reductions_inOrder shape)
  subst hd
  refine ⟨firstFit_mem _ _, fun hunspent => ?_, fun x hx hfits hunspent => ?_⟩
  · by_contra hover
    rw [firstFit_eq_last hover] at hunspent
    exact hunspent (reductions_last_spent shape)
  · rcases firstFit_before hpairs hx hfits with heq | hbefore
    · rw [heq]
      exact ⟨le_refl _, hunspent⟩
    · exact ⟨hbefore.smaller.le, hbefore.unspent⟩

/-- A read that fits is planned as it is. -/
theorem unchanged_sound_iff (hlower : lower "identity" = "identity") (shape : ResolvedStateShape)
    (addOn : ResolvedSessionAddOnShape) (budget : Option Int) :
    (SessionPlan.mk shape addOn (unchangedPlan shape addOn budget .autoSummary)).Sound lower shape
      addOn ↔ LowerCase lower shape := by
  have hnone : (SessionPlan.mk shape addOn
      (unchangedPlan shape addOn budget .autoSummary)).stateOmissions = [] := by
    rw [eq_nil_iff_forall_not_mem]
    intro s hmem
    exact state_notMem_preOmitted addOn s (SessionPlan.mem_stateOmissions.mp hmem)
  have hfetched := fetched_iff hlower shape
    (SessionPlan.mk shape addOn (unchangedPlan shape addOn budget .autoSummary)) rfl
    (by simp [hnone])
  constructor
  · intro h
    exact hfetched.mp h.fetched
  · intro h
    refine ⟨fun _ => le_refl _, le_refl _, le_refl _, fun s _ => state_notMem_preOmitted addOn s, ?_,
      (fun hover => by cases hover), hfetched.mpr h⟩
    rw [hnone]
    show estimateStateBytes shape [] + estimateSessionAddOnBytes addOn false false =
      estimateStateBytes shape [] + estimateSessionAddOnBytes addOn
        (decide (Omission.openFindings ∈ preOmitted addOn))
        (decide (Omission.touchedFiles ∈ preOmitted addOn))
    rw [estimateSessionAddOnBytes_preOmitted]

theorem planOverBudget_settles (shape : ResolvedStateShape) (addOn : ResolvedSessionAddOnShape)
    (budget : Int) :
    ∃ d t, d = firstFit budget (Draft.ofShape shape) (reductionsAfter (Draft.ofShape shape)) ∧
      Trim.Trimmed budget
        (Trim.ofPlan addOn (planOfDraft budget (compoundInitial shape addOn) d)) t ∧
      Settles (fun fuel => planOverBudget fuel shape addOn budget)
        (sessionPlanOf budget (compoundInitial shape addOn) d.shape t) := by
  have hstate := (reduceState_settles budget shape).map fun d =>
    (d.shape, planOfDraft budget (compoundInitial shape addOn) d)
  obtain ⟨t, ht, htrimmed⟩ := Trim.trimAddOns_settles budget
    (Trim.ofPlan addOn (planOfDraft budget (compoundInitial shape addOn)
      (firstFit budget (Draft.ofShape shape) (reductionsAfter (Draft.ofShape shape)))))
  exact ⟨_, t, rfl, htrimmed, hstate.bind (ht.map _)⟩

theorem mem_omitted_iff {initialBytes : Int} {t : Trim}
    (h : Trim.Within (Trim.ofPlan addOn (planOfDraft budget initialBytes d)) t) (s : Section) :
    Omission.state s ∈ t.omitted ↔ s ∈ d.omitted := by
  rw [h.omitted _ (by simp)]
  simp [Trim.ofPlan, planOfDraft, state_notMem_preOmitted]

theorem marked_ofPlan (addOn : ResolvedSessionAddOnShape) (budget initialBytes : Int) (d : Draft) :
    (Trim.ofPlan addOn (planOfDraft budget initialBytes d)).Marked := by
  constructor
  · simp [Trim.ofPlan, planOfDraft, mem_preOmitted_findings]
  · simp [Trim.ofPlan, planOfDraft, mem_preOmitted_files]

theorem estimateStateBytes_congr (shape : ResolvedStateShape) {a b : List Section}
    (h : ∀ s, s ∈ a ↔ s ∈ b) : estimateStateBytes shape a = estimateStateBytes shape b := by
  unfold estimateStateBytes pricedSections
  simp only [h]

theorem spent_iff (r : SessionPlan) (hstate : r.state = d.shape)
    (homitted : ∀ s, s ∈ r.stateOmissions ↔ s ∈ d.omitted) :
    d.Spent ↔ (∀ s ∈ r.priced, s ∈ requiredSectionsFor r.state.appliedProfile) ∧
      ∀ s ∈ r.priced, r.state.limit s ≤ 1 := by
  have hpriced : ∀ s, s ∈ r.priced ↔ isActive d.shape s = true ∧ s ∉ d.omitted := by
    intro s
    rw [SessionPlan.mem_priced, hstate, homitted]
  rw [hstate]
  constructor
  · intro hspent
    refine ⟨fun s hs => ?_, fun s hs => ?_⟩
    · obtain ⟨hactive, hkept⟩ := (hpriced s).mp hs
      by_contra hoptional
      have hmay := Draft.mayOmit_iff.mpr ⟨hoptional, hactive, hkept⟩
      rw [(hspent s).1] at hmay
      cases hmay
    · obtain ⟨hactive, hkept⟩ := (hpriced s).mp hs
      by_contra hlt
      have hmay := Draft.mayLower_iff.mpr ⟨hactive, hkept, not_le.mp hlt⟩
      rw [(hspent s).2] at hmay
      cases hmay
  · rintro ⟨hrequired, hlimits⟩ s
    constructor
    · by_contra hmay
      obtain ⟨hoptional, hactive, hkept⟩ := Draft.mayOmit_iff.mp (by simpa using hmay)
      exact hoptional (hrequired s ((hpriced s).mpr ⟨hactive, hkept⟩))
    · by_contra hmay
      obtain ⟨hactive, hkept, hlt⟩ := Draft.mayLower_iff.mp (by simpa using hmay)
      have hle := hlimits s ((hpriced s).mpr ⟨hactive, hkept⟩)
      omega

/-- The plan of a read over its budget is sound where the read is roomy and its names are written in
lower case. -/
theorem over_sound_iff (hlower : lower "identity" = "identity") {t : Trim}
    (hd : d = firstFit budget (Draft.ofShape shape) (reductionsAfter (Draft.ofShape shape)))
    (ht : Trim.Trimmed budget
      (Trim.ofPlan addOn (planOfDraft budget (compoundInitial shape addOn) d)) t) :
    (sessionPlanOf budget (compoundInitial shape addOn) d.shape t).Sound lower shape addOn ↔
      Roomy shape addOn (some budget) ∧ LowerCase lower shape := by
  have hspec := ofShape_spec shape
  obtain ⟨hmem, hfits, hfirst⟩ := firstFit_reductions hd
  have hwithin := within_of_mem_reductions hmem
  have homitted : ∀ s, s ∈ (sessionPlanOf budget (compoundInitial shape addOn) d.shape
      t).stateOmissions ↔ s ∈ d.omitted := by
    intro s
    rw [SessionPlan.mem_stateOmissions]
    exact mem_omitted_iff ht.within s
  have hoptional : ∀ s ∈ d.omitted, isActive shape s = true ∧
      s ∉ requiredSectionsFor shape.appliedProfile := by
    intro s hs
    rcases hwithin.optional s hs with hs | ⟨hactive, hrequired⟩
    · rw [hspec.omitted] at hs
      cases hs
    · rw [isActive_congr hspec.sections] at hactive
      rw [hspec.profile] at hrequired
      exact ⟨hactive, hrequired⟩
  have hfetched := fetched_iff hlower shape
    (sessionPlanOf budget (compoundInitial shape addOn) d.shape t)
    (hwithin.sections.trans hspec.sections) fun s hs => (hoptional s ((homitted s).mp hs)).1
  have hover : budget < t.compoundBytes ↔ budget < d.estimate + addOnFloor addOn :=
    ht.over_iff (marked_ofPlan addOn budget _ d)
  have hspent := spent_iff (sessionPlanOf budget (compoundInitial shape addOn) d.shape t) rfl homitted
  constructor
  · intro h
    refine ⟨?_, hfetched.mp h.fetched⟩
    intro bytes heq x hx hunspent hxfits
    cases heq
    obtain ⟨hle, hdunspent⟩ := hfirst x hx hxfits hunspent
    by_contra hnot
    have hexhausted := h.exhausted (decide_eq_true (hover.mpr (by omega)))
    exact hdunspent (hspent.mpr ⟨hexhausted.sections, hexhausted.limits⟩)
  · rintro ⟨hroomy, hcase⟩
    refine ⟨fun s => ?_, ht.within.findings_le, ht.within.files_le, fun s hs hmem => ?_, ?_, ?_,
      hfetched.mpr hcase⟩
    · rw [← hspec.limit s]
      exact hwithin.limit_le s
    · exact (hoptional s ((mem_omitted_iff ht.within s).mp hmem)).2 hs
    · have hstate : t.stateBytes = d.estimate := ht.within.stateBytes
      have hsame : estimateStateBytes d.shape (sessionPlanOf budget (compoundInitial shape addOn)
          d.shape t).stateOmissions = t.stateBytes := by
        rw [hstate]
        exact estimateStateBytes_congr d.shape homitted
      show t.compoundBytes = estimateStateBytes d.shape (sessionPlanOf budget
        (compoundInitial shape addOn) d.shape t).stateOmissions + estimateSessionAddOnBytes t.addOn
          (decide (Omission.openFindings ∈ t.omitted)) (decide (Omission.touchedFiles ∈ t.omitted))
      rw [hsame]
      rfl
    · intro hreported
      have hlt : budget < t.compoundBytes := of_decide_eq_true hreported
      obtain ⟨hsummary, hfindings, hfiles⟩ := ht.floors hlt
      have hdspent : d.Spent := by
        by_contra hunspent
        have hroom := hroomy budget rfl d hmem hunspent (hfits hunspent)
        have hbytes := hover.mp hlt
        omega
      obtain ⟨hsections, hlimits⟩ := hspent.mp hdspent
      refine ⟨hwithin.detail.trans hspec.detail, hsections, hlimits, hsummary.continuation, ?_,
        .inr hfiles⟩
      rcases hsummary.detail with hmem | hdetail
      · exact .inl hmem
      · exact .inr ⟨hdetail, hfindings⟩

/-- Planning ends for every read. Its plan is sound exactly if the read is roomy and its names are
written in lower case. -/
theorem planSessionRead_sound_iff (lower : String → String) (hlower : lower "identity" = "identity")
    (shape : ResolvedStateShape) (addOn : ResolvedSessionAddOnShape) (budget : Option Int) :
    ∃ r, Settles (fun fuel => planSessionRead fuel shape addOn budget .autoSummary) r ∧
      (r.Sound lower shape addOn ↔ Roomy shape addOn budget ∧ LowerCase lower shape) := by
  cases budget with
  | none =>
    refine ⟨_, Settles.pure _, (unchanged_sound_iff hlower shape addOn none).trans ?_⟩
    exact ⟨fun h => ⟨(fun _ heq => by cases heq), h⟩, fun h => h.2⟩
  | some bytes =>
    by_cases hfits : compoundInitial shape addOn ≤ bytes
    · refine ⟨⟨shape, addOn, unchangedPlan shape addOn (some bytes) .autoSummary⟩, ?_,
        (unchanged_sound_iff hlower shape addOn (some bytes)).trans
          ⟨fun h => ⟨roomy_of_fits hfits, h⟩, fun h => h.2⟩⟩
      simp only [planSessionRead, if_pos hfits]
      exact Settles.pure _
    · obtain ⟨d, t, hd, ht, hsettles⟩ := planOverBudget_settles shape addOn bytes
      refine ⟨_, ?_, over_sound_iff hlower hd ht⟩
      simp only [planSessionRead, if_neg hfits]
      exact hsettles

/-- Two rows of every section, in summary. -/
def twoRows : ResolvedStateShape where
  sections := none
  detail := "summary"
  topNBlockers := 2
  topNActions := 2
  topNDecisions := 2
  topNSlices := 2
  topNTests := 2
  topNFindings := 2
  appliedProfile := none

/-- Five findings and ten touched files. -/
def fiveFindings : ResolvedSessionAddOnShape where
  openFindingsLimit := 5
  openFindingsDetail := "summary"
  topNTouchedFiles := 10

theorem planSessionRead_sound_iff_twoRows :
    ∃ r, Settles (fun fuel => planSessionRead fuel twoRows fiveFindings (some 5000) .autoSummary) r ∧
      (r.Sound id twoRows fiveFindings ↔
        Roomy twoRows fiveFindings (some 5000) ∧ LowerCase id twoRows) :=
  planSessionRead_sound_iff id rfl twoRows fiveFindings (some 5000)

/-- A state that fits alone is not reduced to make room for the add-ons, and the plan is reported to
be over the budget. -/
theorem state_not_reduced_for_addOns : ¬ ∀ (lower : String → String)
    (shape : ResolvedStateShape) (addOn : ResolvedSessionAddOnShape) (budget : Option Int),
    lower "identity" = "identity" →
      ∃ r, Settles (fun fuel => planSessionRead fuel shape addOn budget .autoSummary) r ∧
        r.Sound lower shape addOn := by
  intro h
  obtain ⟨r, hr, hsound⟩ := h id twoRows fiveFindings (some 5000) rfl
  obtain ⟨d, t, hd, ht, hsettles⟩ := planOverBudget_settles twoRows fiveFindings 5000
  have heq : r = sessionPlanOf 5000 (compoundInitial twoRows fiveFindings) d.shape t :=
    hr.unique hsettles
  rw [heq] at hsound
  have hroomy := ((over_sound_iff rfl hd ht).mp hsound).1
  have hunspent : ¬ (Draft.ofShape twoRows).Spent := fun hspent =>
    absurd (hspent .slicesCompleted).1 (by decide)
  have hroom := hroomy 5000 rfl (Draft.ofShape twoRows) mem_cons_self hunspent (by decide)
  exact absurd hroom (by decide)

end Workbay.Reading
