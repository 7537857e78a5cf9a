import Workbay.Routing.Resolve

/-!
# A complete caller decides the route

The fields of a complete caller overwrite those of every other source, so the route is made of them
alone. What is left of the other sources is the tier that they select: the tier table is asked for it
before the caller is merged, and may refuse it.
-/

namespace Workbay.Routing

variable {registry : Registry} {tierTable : TierTable} {role : Option String} {allow : Bool}

/-- The caller names every field that its backend carries, and no tier. -/
structure SourceValues.IsComplete (registry : Registry) (c : SourceValues) : Prop where
  core : ∀ f ∈ coreFields, c.supplied f = true ∨
    f = .speed ∧ speedNotApplicable registry (c.values .backend) = true
  noTier : c.supplied .tier = false

/-- What a caller of the resolver learns: the route, or the reason of the refusal. -/
def outcome (result : Except Refusal (RoutingQuad × (Field → Option Origin))) :
    Except String RoutingQuad :=
  match result with
  | .ok (quad, _) => .ok quad
  | .error e => .error e.reason

/-- The caller names a speed for a backend that has none. -/
def hasInvalidSpeed (registry : Registry) (c : SourceValues) : Bool :=
  speedNotApplicable registry (c.values .backend) && (c.values .speed).isSome

/-- Why the model of the caller is refused. -/
def modelRefusal (tierTable : TierTable) (c : SourceValues) : Option String :=
  ((c.values .model).bind fun model => tierTable.get? model).bind fun row =>
    if c.values .backend ≠ none ∧ c.values .backend ≠ some "codex-remote" then
      some "backend_model_disagreement"
    else if row.entitled then none
    else some "tier_not_entitled"

/-- Why the tier that the row or the manifest of a context selects is refused. -/
def tierRefusal (registry : Registry) (tierTable : TierTable) (role : Option String)
    (caller : Source) (context : Context) : Option String :=
  match (context.inputs caller).tierValue registry tierTable role with
  | .error e => some e.reason
  | .ok _ => none

/-- The route of a complete caller. -/
def callerQuad (tierTable : TierTable) (c : SourceValues) : RoutingQuad where
  backend := c.values .backend
  model := c.values .model
  effort := c.values .effort
  speed := c.values .speed
  tier := inferTier (c.values .model) tierTable

theorem values_of_not_supplied {source : Source} {key : Field → String} {f : Field}
    (h : (sourceValues source key).supplied f = false) :
    (sourceValues source key).values f = none := by
  have hraw : source.raw (key f) f = none := Option.isSome_eq_false_iff.mp h |> Option.isNone_iff_eq_none.mp
  show clean (source.raw (key f) f) = none
  rw [hraw]
  rfl

variable {i : Inputs} {m : Merged}

theorem missing_eq_nil (h : i.caller.IsComplete registry) : i.missing registry = [] := by
  refine List.filter_eq_nil_iff.mpr fun f hf => ?_
  rcases h.core f hf with hsupplied | ⟨rfl, hspeed⟩
  · simp [hsupplied]
  · simp [Inputs.isSpeedless, hspeed]

theorem suppliesCore_of_isComplete (h : i.caller.IsComplete registry) : i.suppliesCore = true := by
  refine List.any_eq_true.mpr ⟨.backend, List.mem_cons_self, ?_⟩
  rcases h.core .backend List.mem_cons_self with hsupplied | ⟨hne, -⟩
  · exact hsupplied
  · cases hne

theorem check_of_isComplete (h : i.caller.IsComplete registry) :
    i.check registry allow = if hasInvalidSpeed registry i.caller then
        .error (.invalidSpeed ((i.caller.values .backend).getD "") ((i.caller.values .speed).getD ""))
      else .ok () := by
  simp only [Inputs.check, missing_eq_nil h, suppliesCore_of_isComplete h, List.isEmpty_nil,
    Bool.not_true, Bool.and_false, Bool.false_and, Bool.and_true, Bool.false_eq_true, if_false]
  rfl

theorem Merged.sources_mergeValues {values : SourceValues} {source : Origin} {f : Field}
    (hm : m.sources f ≠ some .caller) (hsource : source ≠ .caller) :
    (m.mergeValues values source).sources f ≠ some .caller := by
  show (if values.supplied f then some source else m.sources f) ≠ _
  split
  · exact fun h => hsource (Option.some.inj h)
  · exact hm

theorem sources_mergeBelow (i : Inputs) (tier : Option RoutingQuad) (f : Field) :
    (i.mergeBelow tier).sources f ≠ some .caller := by
  have hstart : i.start.sources f ≠ some .caller := by
    show (i.profile.values f).map _ ≠ _
    cases i.profile.values f <;> simp
  refine Merged.sources_mergeValues (Merged.sources_mergeValues ?_ (by decide)) (by decide)
  cases tier with
  | none => exact hstart
  | some quad =>
    dsimp only
    split
    · exact hstart
    · exact Merged.sources_mergeValues hstart (by decide)

/-- The fields of a caller in place of those of the other sources, which no tier supplied. -/
structure Decided (tierTable : TierTable) (c : SourceValues) (m : Merged) : Prop where
  base : RoutingQuad.ofValues m.base = callerQuad tierTable c
  sources : ∀ f, m.sources f ≠ some .tier

theorem mergeCaller_of_isComplete (tierTable : TierTable) (h : i.caller.IsComplete registry)
    (hvalues : ∀ f, i.caller.supplied f = false → i.caller.values f = none)
    (tier : Option RoutingQuad) (hm : ∀ f, m.sources f ≠ some .caller) :
    ∃ m', i.mergeCaller registry tierTable tier m = .ok m' ∧ Decided tierTable i.caller m' := by
  have hcore : ∀ f ∈ coreFields, f ≠ .speed → i.caller.supplied f = true := by
    intro f hf hne
    rcases h.core f hf with hsupplied | ⟨heq, -⟩
    · exact hsupplied
    · exact absurd heq hne
  have hbackend := hcore .backend (by decide) (by decide)
  have hmodel := hcore .model (by decide) (by decide)
  have heffort := hcore .effort (by decide) (by decide)
  have hmerge : i.mergeCaller registry tierTable tier m = .ok (i.clearSpeed registry
      ((m.mergeValues i.caller .caller).putInferred
        (inferTier (i.caller.values .model) tierTable))) := by
    simp only [Inputs.mergeCaller, suppliesCore_of_isComplete h, h.noTier, if_true,
      Bool.false_eq_true, if_false]
  refine ⟨_, hmerge, ?_⟩
  cases hspeed : i.caller.supplied .speed with
  | true =>
    have hkept : i.clearSpeed registry ((m.mergeValues i.caller .caller).putInferred
        (inferTier (i.caller.values .model) tierTable)) =
        (m.mergeValues i.caller .caller).putInferred
          (inferTier (i.caller.values .model) tierTable) := by
      simp [Inputs.clearSpeed, Merged.putInferred, Merged.put, Merged.mergeValues, hspeed]
    rw [hkept]
    refine ⟨?_, fun f => ?_⟩
    · simp [RoutingQuad.ofValues, callerQuad, Merged.putInferred, Merged.put, Merged.mergeValues,
        hbackend, hmodel, heffort, hspeed]
    · cases f <;> simp [Merged.putInferred, Merged.put, Merged.mergeValues, hbackend, hmodel,
        heffort, hspeed]
  | false =>
    have hnone := hvalues .speed hspeed
    have hspeedless : i.isSpeedless registry = true := by
      rcases h.core .speed (by decide) with hsupplied | ⟨-, happlies⟩
      · rw [hspeed] at hsupplied
        cases hsupplied
      · exact happlies
    have hcleared : i.clearSpeed registry ((m.mergeValues i.caller .caller).putInferred
        (inferTier (i.caller.values .model) tierTable)) =
        ((m.mergeValues i.caller .caller).putInferred
          (inferTier (i.caller.values .model) tierTable)).put .speed none none := by
      simp [Inputs.clearSpeed, Merged.putInferred, Merged.put, Merged.mergeValues, hspeed,
        hspeedless, hm]
    rw [hcleared]
    refine ⟨?_, fun f => ?_⟩
    · simp [RoutingQuad.ofValues, callerQuad, Merged.putInferred, Merged.put, Merged.mergeValues,
        hbackend, hmodel, heffort, hnone]
    · cases f <;> simp [Merged.putInferred, Merged.put, Merged.mergeValues, hbackend, hmodel,
        heffort]

theorem Decided.fillTier {c : SourceValues} (h : Decided tierTable c m) :
    RoutingQuad.ofValues (fillTier tierTable m.dropTier).base = callerQuad tierTable c := by
  have hdrop : RoutingQuad.ofValues m.dropTier.base = callerQuad tierTable c := by
    rw [← h.base, Merged.dropTier]
    split
    · simp only [h.sources, if_false]
    · rfl
  have hmodel : m.dropTier.base .model = c.values .model := congrArg RoutingQuad.model hdrop
  rw [Routing.fillTier]
  split
  · rename_i hnone
    have htier : inferTier (c.values .model) tierTable = none :=
      (congrArg RoutingQuad.tier hdrop).symm.trans hnone
    rw [← hdrop, hmodel, htier]
    simp [RoutingQuad.ofValues, Merged.putInferred, Merged.put, hnone]
  · exact hdrop

theorem checkModel_callerQuad (tierTable : TierTable) (c : SourceValues) :
    (∃ e, checkModel tierTable (callerQuad tierTable c) = .error e ∧
      modelRefusal tierTable c = some e.reason) ∨
    checkModel tierTable (callerQuad tierTable c) = .ok (callerQuad tierTable c) ∧
      modelRefusal tierTable c = none := by
  have hquad : (callerQuad tierTable c).model = c.values .model := rfl
  cases hmodel : c.values .model with
  | none =>
    right
    simp only [checkModel, hquad, hmodel, modelRefusal, Option.bind_none, and_self]
  | some model =>
    cases hrow : tierTable.get? model with
    | none =>
      right
      simp only [checkModel, hquad, hmodel, hrow, modelRefusal, Option.bind_some, Option.bind_none,
        and_self]
    | some row =>
      have htier : (callerQuad tierTable c).tier = inferTier (some model) tierTable := by
        rw [← hmodel]
        rfl
      have hbackend : (callerQuad tierTable c).backend = c.values .backend := rfl
      simp only [checkModel, hquad, hmodel, hrow, modelRefusal, Option.bind_some, hbackend, htier]
      split
      · exact .inl ⟨_, rfl, rfl⟩
      · cases row.entitled with
        | true => simp
        | false => exact .inl ⟨_, rfl, rfl⟩

theorem outcome_of_isComplete {caller : Source} (context : Context)
    (h : (sourceValues caller rowKey).IsComplete registry) :
    outcome (resolveRoutingQuad registry tierTable role allow caller context) =
      if hasInvalidSpeed registry (sourceValues caller rowKey) then .error "invalid_speed"
      else match (tierRefusal registry tierTable role caller context).or
          (modelRefusal tierTable (sourceValues caller rowKey)) with
        | some reason => .error reason
        | none => .ok (callerQuad tierTable (sourceValues caller rowKey)) := by
  have hcomplete : (context.inputs caller).caller.IsComplete registry := h
  rw [resolveRoutingQuad, resolveInputs, check_of_isComplete hcomplete]
  change outcome ((if hasInvalidSpeed registry (sourceValues caller rowKey) then _ else _) >>= _) = _
  cases hspeed : hasInvalidSpeed registry (sourceValues caller rowKey) with
  | true => rfl
  | false =>
    rw [tierRefusal]
    cases htier : (context.inputs caller).tierValue registry tierTable role with
    | error e => rfl
    | ok tier =>
      obtain ⟨m, hmerge, hdecided⟩ := mergeCaller_of_isComplete tierTable hcomplete
        (fun f hf => values_of_not_supplied hf) tier (sources_mergeBelow (context.inputs caller) tier)
      have hquad : RoutingQuad.ofValues (fillTier tierTable m.dropTier).base =
          callerQuad tierTable (sourceValues caller rowKey) := hdecided.fillTier
      show outcome ((context.inputs caller).mergeCaller registry tierTable tier
        ((context.inputs caller).mergeBelow tier) >>= _) = _
      rw [hmerge]
      show outcome (checkModel tierTable (.ofValues (fillTier tierTable m.dropTier).base) >>= _) = _
      rw [hquad]
      rcases checkModel_callerQuad tierTable (sourceValues caller rowKey) with
        ⟨e, hrefused, hreason⟩ | ⟨hok, hnone⟩
      · rw [hrefused, hreason]
        rfl
      · rw [hok, hnone]
        rfl

/-- A complete caller gets the same route, or is refused for the same reason, in two contexts if and
only if their tiers are refused alike: not at all, for one reason, or for the reason for which the
caller is refused in any context. -/
theorem caller_decides_iff {caller : Source} (a b : Context)
    (h : (sourceValues caller rowKey).IsComplete registry) :
    outcome (resolveRoutingQuad registry tierTable role allow caller a) =
        outcome (resolveRoutingQuad registry tierTable role allow caller b) ↔
      hasInvalidSpeed registry (sourceValues caller rowKey) = true ∨
        (tierRefusal registry tierTable role caller a).or
            (modelRefusal tierTable (sourceValues caller rowKey)) =
          (tierRefusal registry tierTable role caller b).or
            (modelRefusal tierTable (sourceValues caller rowKey)) := by
  rw [outcome_of_isComplete a h, outcome_of_isComplete b h]
  cases hasInvalidSpeed registry (sourceValues caller rowKey) with
  | true => simp
  | false =>
    simp only [Bool.false_eq_true, if_false, false_or]
    cases (tierRefusal registry tierTable role caller a).or _ with
    | none => cases (tierRefusal registry tierTable role caller b).or _ <;> simp
    | some reason =>
      cases (tierRefusal registry tierTable role caller b).or _ with
      | none => simp
      | some reason' => simp

/-- A caller that names all four fields. -/
def wholeCaller : Source := .quad ⟨some "grok-remote", some "grok-4", some "high", some "fast", none⟩

/-- A lane whose row still names a tier that the table does not have. -/
def staleRow : Context where
  row := .mapping [("tier", some (.ofText "retired"))]

/-- A lane with a manifest that disagrees with its row. -/
def splitContext : Context where
  row := .mapping [("backend", some (.ofText "codex-remote"))]
  manifestEntry := .mapping [("preferred_backend", some (.ofText "claude-remote"))]

theorem wholeCaller_decides :
    outcome (resolveRoutingQuad [] [] none false wholeCaller splitContext) =
      outcome (resolveRoutingQuad [] [] none false wholeCaller {}) := by
  refine (caller_decides_iff splitContext {} ⟨fun f hf => .inl ?_, by decide +kernel⟩).mpr
    (.inr (by decide +kernel))
  cases f <;> first | decide +kernel | exact absurd hf (by decide)

/-- The row refuses a caller that another lane routes. -/
theorem staleRow_refuses :
    outcome (resolveRoutingQuad [] [] none false wholeCaller staleRow) ≠
      outcome (resolveRoutingQuad [] [] none false wholeCaller {}) := by
  decide +kernel

end Workbay.Routing
