import Workbay.Data.Dict
import Workbay.Data.Text
import Mathlib.Data.List.Dedup

/-!
# The resolution of lane routing

Backend, model, effort, speed and tier of a lane are resolved as one value, from the caller, the row
of the lane, its manifest entry, the tier table and a profile. A source that disagrees is refused
before any backend is contacted.
-/

namespace Workbay.Routing

/-! ## Values and sources -/

/-- `_FIELDS` -/
inductive Field where
  | backend
  | model
  | effort
  | speed
  | tier
deriving DecidableEq

/-- `_CORE_FIELDS` -/
def coreFields : List Field := [.backend, .model, .effort, .speed]

def fields : List Field := coreFields ++ [.tier]

/-- The name of a field. -/
def Field.text : Field → String
  | backend => "backend"
  | model => "model"
  | effort => "effort"
  | speed => "speed"
  | tier => "tier"

/-- `_ROW_KEYS` -/
def rowKey : Field → String
  | .effort => "reasoning_effort"
  | field => field.text

/-- `_MANIFEST_KEYS` -/
def manifestKey : Field → String
  | .backend => "preferred_backend"
  | .model => "preferred_model"
  | .effort => "preferred_reasoning_effort"
  | .speed => "preferred_speed"
  | .tier => "preferred_tier"

/-- A value that is not `None`: of any kind, only `str(value)` and `bool(value)` matter. -/
structure RawValue where
  text : String
  isTruthy : Bool
deriving DecidableEq

/-- A text as a value. -/
def RawValue.ofText (s : String) : RawValue := ⟨s, decide (s ≠ "")⟩

/-- `_clean` -/
def clean (value : Option RawValue) : Option String :=
  (value.map fun v => Text.strip v.text).filter fun s => decide (s ≠ "")

/-- `RoutingQuad`, without the receipt of its sources -/
structure RoutingQuad where
  backend : Option String := none
  model : Option String := none
  effort : Option String := none
  speed : Option String := none
  tier : Option String := none
deriving DecidableEq

/-- A value for each field. -/
abbrev Values := Field → Option String

def RoutingQuad.values (quad : RoutingQuad) : Values
  | .backend => quad.backend
  | .model => quad.model
  | .effort => quad.effort
  | .speed => quad.speed
  | .tier => quad.tier

/-- `RoutingQuad(**values)` -/
def RoutingQuad.ofValues (values : Values) : RoutingQuad where
  backend := values .backend
  model := values .model
  effort := values .effort
  speed := values .speed
  tier := values .tier

/-- What the resolver may be given: nothing, a quad, a mapping, or an object with attributes. -/
inductive Source where
  | absent
  | quad (q : RoutingQuad)
  | mapping (entries : Dict String (Option RawValue))
  | object (attributes : Dict String (Option RawValue))

/-- The value of a source for a field that it keeps under a key or under the name of the field. -/
def Source.raw (source : Source) (key : String) (field : Field) : Option RawValue :=
  match source with
  | .absent => none
  | .quad q => (q.values field).map RawValue.ofText
  | .mapping entries => (entries.get? key).join.or (entries.get? field.text).join
  | .object attributes =>
    match attributes.get? key with
    | some value => value
    | none => (attributes.get? field.text).join

/-- What `_source_values` returns -/
structure SourceValues where
  values : Values
  supplied : Field → Bool

/-- `_source_values` -/
def sourceValues (source : Source) (key : Field → String) : SourceValues where
  values field := clean (source.raw (key field) field)
  supplied field := (source.raw (key field) field).isSome

/-- `getattr`, of the first name that the object has -/
def getAttribute (attributes : Dict String (Option RawValue)) : List String → Option RawValue
  | [] => none
  | name :: names =>
    match attributes.get? name with
    | some value => value
    | none => getAttribute attributes names

/-- `_profile_quad` -/
def profileQuad (profile : Source) : RoutingQuad :=
  if fields.any (sourceValues profile rowKey).supplied then
    .ofValues (sourceValues profile rowKey).values
  else
    match profile with
    | .object attributes =>
      { backend := clean (getAttribute attributes ["backend", "agent", "name"])
        model := clean (((getAttribute attributes ["pinned_model"]).filter RawValue.isTruthy).or
          (getAttribute attributes ["default_model"]))
        effort := clean (getAttribute attributes ["default_effort"])
        speed := clean (getAttribute attributes ["default_speed"])
        tier := clean (getAttribute attributes ["tier"]) }
    | _ => {}

/-! ## The tier table -/

/-- A row of the tier table, with what the resolver reads of it. -/
structure TierRow where
  tier : Option RawValue := none
  entitled : Bool := true
  roles : List String := []
  defaultModel : Option RawValue := none
  defaultEffort : Option RawValue := none
  allowedServiceTiers : List String := []

/-- The rows of the models. -/
abbrev TierTable := Dict String TierRow

/-- `BACKENDS`: the model tiers of every backend that is registered, if it has any -/
abbrev Registry := Dict String (Option TierTable)

/-- `CODEX_SPEED_TO_SERVICE_TIER` -/
def speedToServiceTier : Dict String String := [("standard", "default"), ("fast", "fast")]

variable (registry : Registry)

/-- `_backend_supported_speeds` -/
def supportedSpeeds (backend : String) : List String :=
  match (registry.get? backend).join with
  | none => []
  | some tiers =>
    (speedToServiceTier.filter fun speed =>
      tiers.any fun row => decide (speed.2 ∈ row.2.allowedServiceTiers)).map Prod.fst

/-- `_speed_not_applicable` -/
def speedNotApplicable : Option String → Bool
  | none => false
  | some backend =>
    (registry.get? backend).isSome && (supportedSpeeds registry backend).isEmpty

/-- `RoutingDisagreement` and `InvalidSpeed`, by the place where they are raised -/
inductive Refusal where
  | partialCallerQuad (missing : List Field)
  | invalidSpeed (backend speed : String)
  | rowManifestDisagreement (disagreements : List (Field × Option String × Option String))
  | unknownModel (model tier : String)
  | tierModelDisagreement (model : String) (modelTier : Option String) (tier : String)
  | modelNotEntitled (model : String) (tier : Option String)
  | modelWithoutRole (model role : String)
  | tierDefaultDisagreement (tier : String) (defaults : List String)
  | unknownDefault (tier model : String)
  | defaultNotEntitled (tier model : String)
  | defaultWithoutRole (tier model role : String)
  | tierWithoutRole (tier role : String)
  | unknownTier (tier : String)
  | backendModelDisagreement (backend model : String)
  /-- The `assert` that a tier was found, which a caller that clears its tier fails. -/
  | noTierValue
deriving DecidableEq

/-- The reason of a refusal. -/
def Refusal.reason : Refusal → String
  | partialCallerQuad _ => "partial_caller_quad"
  | invalidSpeed .. => "invalid_speed"
  | rowManifestDisagreement _ => "row_manifest_disagreement"
  | unknownModel .. => "tier_not_entitled"
  | tierModelDisagreement .. => "tier_model_disagreement"
  | modelNotEntitled .. => "tier_not_entitled"
  | modelWithoutRole .. => "no_entitled_role"
  | tierDefaultDisagreement .. => "tier_default_disagreement"
  | unknownDefault .. => "tier_not_entitled"
  | defaultNotEntitled .. => "tier_not_entitled"
  | defaultWithoutRole .. => "no_entitled_role"
  | tierWithoutRole .. => "no_entitled_role"
  | unknownTier _ => "unknown_tier"
  | backendModelDisagreement .. => "backend_model_disagreement"
  | noTierValue => "AssertionError"

/-- `normalize_speed` -/
def normalizeSpeed (backend : String) (speed : Option RawValue) :
    Except Refusal (Option String) :=
  match clean speed with
  | none => .ok (if "standard" ∈ supportedSpeeds registry backend then some "standard" else none)
  | some cleaned =>
    if cleaned ∈ supportedSpeeds registry backend then .ok (some cleaned)
    else .error (.invalidSpeed backend cleaned)

/-- The role is none, or one of the row. -/
def TierRow.serves (row : TierRow) (role : Option String) : Bool :=
  role.all fun r => decide (r ∈ row.roles)

variable (tier : String)

/-- `_validate_explicit_tier_model` -/
def validateExplicitTierModel (tierTable : TierTable) (model : String)
    (role : Option String) : Except Refusal (String × TierRow) :=
  match tierTable.get? model with
  | none => .error (.unknownModel model tier)
  | some row =>
    if clean row.tier ≠ some tier then
      .error (.tierModelDisagreement model (clean row.tier) tier)
    else if !row.entitled then .error (.modelNotEntitled model (some tier))
    else if !row.serves role then .error (.modelWithoutRole model (role.getD ""))
    else .ok (model, row)

/-- The default of the tier has no such role. -/
def checkDefaultRole (role : Option String) (found : String × TierRow) :
    Except Refusal (String × TierRow) :=
  if !found.2.serves role then .error (.defaultWithoutRole tier found.1 (role.getD ""))
  else .ok found

/-- `_select_declared_tier_default`; there is a candidate. -/
def selectDeclaredTierDefault (tierTable : TierTable) (first : String × TierRow)
    (candidates : TierTable) (role : Option String) : Except Refusal (String × TierRow) :=
  match (candidates.filterMap fun row => clean row.2.defaultModel).dedup with
  | [] => checkDefaultRole tier role first
  | [slug] =>
    match tierTable.get? slug with
    | none => .error (.unknownDefault tier slug)
    | some row =>
      if clean row.tier ≠ some tier ∨ row.entitled = false then
        .error (.defaultNotEntitled tier slug)
      else checkDefaultRole tier role (slug, row)
  | defaults => .error (.tierDefaultDisagreement tier defaults)

/-- The rows of a tier that the role is entitled to. -/
def tierCandidates (tierTable : TierTable) (role : Option String) : TierTable :=
  tierTable.filter fun row =>
    decide (clean row.2.tier = some tier) && row.2.entitled && row.2.serves role

/-- The quad of a row. -/
def rowQuad (found : String × TierRow) :
    Except Refusal (Option RoutingQuad) :=
  (normalizeSpeed registry "codex-remote"
    (if "default" ∈ found.2.allowedServiceTiers then some (.ofText "standard") else none)).map
    fun speed => some ⟨some "codex-remote", some found.1, clean found.2.defaultEffort, speed, some tier⟩

/-- `_tier_quad` -/
def tierQuad (tierTable : TierTable) (role : Option String)
    (model : Option String) : Except Refusal (Option RoutingQuad) :=
  match model with
  | some model => do
    let found ← validateExplicitTierModel tier tierTable model role
    rowQuad registry tier found
  | none =>
    match tierCandidates tier tierTable role with
    | [] => .ok none
    | first :: rest => do
      let found ← selectDeclaredTierDefault tier tierTable first (first :: rest) role
      rowQuad registry tier found

/-- `_infer_tier` -/
def inferTier (model : Option String) (tierTable : TierTable) : Option String :=
  (model.bind fun model => tierTable.get? model).bind fun row => clean row.tier

/-! ## Merging -/

/-- What supplied a field. -/
inductive Origin where
  | profile
  | manifest
  | row
  | tier
  | caller
  | inferred
deriving DecidableEq

/-- The values that are merged, and what supplied them. -/
structure Merged where
  base : Values
  sources : Field → Option Origin

namespace Merged

variable (m : Merged)

/-- A field gets a value. -/
def put (field : Field) (value : Option String) (source : Option Origin) : Merged where
  base f := if f = field then value else m.base f
  sources f := if f = field then source else m.sources f

/-- `_merge_values` -/
def mergeValues (values : SourceValues) (source : Origin) : Merged where
  base f := if values.supplied f then values.values f else m.base f
  sources f := if values.supplied f then some source else m.sources f

/-- `_merge_values` of a quad of the tier table, with `skip_none` -/
def mergeTier (quad : RoutingQuad) : Merged :=
  m.mergeValues ⟨quad.values, fun f => (quad.values f).isSome⟩ .tier

/-- The tier that the model belongs to. -/
def putInferred (tier : Option String) : Merged :=
  m.put .tier tier (tier.map fun _ => .inferred)

/-- Fields that only the tier table contributed are dropped for other backends. -/
def dropTier : Merged :=
  if m.base .backend ≠ some "codex-remote" then
    { base := fun f => if m.sources f = some .tier then none else m.base f
      sources := fun f => if m.sources f = some .tier then none else m.sources f }
  else m

end Merged

/-! ## The resolver -/

/-- The sources as the resolver reads them, and the profile. -/
structure Inputs where
  caller : SourceValues
  row : SourceValues
  manifest : SourceValues
  profile : RoutingQuad

namespace Inputs

variable (i : Inputs)

/-- The caller supplies a field of the route. -/
def suppliesCore : Bool := coreFields.any i.caller.supplied

/-- `caller_speedless` -/
def isSpeedless (registry : Registry) : Bool :=
  speedNotApplicable registry (i.caller.values .backend)

/-- `missing` -/
def missing (registry : Registry) : List Field :=
  coreFields.filter fun f =>
    !(i.isSpeedless registry && decide (f = .speed)) && !i.caller.supplied f

/-- `caller_tier_model` -/
def isTierModel : Bool :=
  coreFields.all (fun f => i.caller.supplied f == decide (f = .model)) &&
    (i.caller.values .tier).isSome

/-- `disagreements` -/
def disagreements : List (Field × Option String × Option String) :=
  (fields.filter fun f => i.row.supplied f && i.manifest.supplied f &&
    decide (i.row.values f ≠ i.manifest.values f)).map fun f => (f, i.row.values f, i.manifest.values f)

/-- The checks of the caller's fields, and of the row against the manifest. -/
def check (registry : Registry) (allowPartialCaller : Bool) : Except Refusal Unit :=
  if i.suppliesCore && !(i.missing registry).isEmpty && !allowPartialCaller && !i.isTierModel then
    .error (.partialCallerQuad (i.missing registry))
  else if i.isSpeedless registry && (i.caller.values .speed).isSome then
    .error (.invalidSpeed ((i.caller.values .backend).getD "") ((i.caller.values .speed).getD ""))
  else if !i.disagreements.isEmpty && !(i.suppliesCore && (i.missing registry).isEmpty) then
    .error (.rowManifestDisagreement i.disagreements)
  else .ok ()

/-- `selected_tier` -/
def selectedTier : Option String :=
  (i.caller.values .tier).or ((i.row.values .tier).or (i.manifest.values .tier))

/-- `routing_backend` -/
def routingBackend : Option String :=
  if i.caller.supplied .backend then i.caller.values .backend
  else if i.row.supplied .backend then i.row.values .backend
  else if i.manifest.supplied .backend then i.manifest.values .backend
  else i.profile.backend

/-- The model of the source that selects the tier. -/
def tierModel (tier : String) : Option String :=
  if i.caller.values .tier = some tier then i.caller.values .model
  else if i.row.values .tier = some tier then i.row.values .model
  else i.manifest.values .model

/-- `explicit_tier_model` -/
def explicitTierModel (tierTable : TierTable) (tier : String) : Option String :=
  if i.routingBackend ≠ none ∧ i.routingBackend ≠ some "codex-remote" then none
  else if i.caller.values .tier = some tier then i.tierModel tier
  else (i.tierModel tier).filter fun model => (tierTable.get? model).isSome

/-- The quad of the tier that is selected, if one is. -/
def tierValue (registry : Registry) (tierTable : TierTable) (role : Option String) :
    Except Refusal (Option RoutingQuad) :=
  match i.selectedTier with
  | none => .ok none
  | some tier => do
    match ← tierQuad registry tier tierTable role (i.explicitTierModel tierTable tier) with
    | some quad => .ok (some quad)
    | none =>
      match role with
      | some role => .error (.tierWithoutRole tier role)
      | none => .error (.unknownTier tier)

/-- The values of the profile -/
def start : Merged where
  base := i.profile.values
  sources f := (i.profile.values f).map fun _ => .profile

/-- The profile, the tier that is selected and the sources below the caller, merged. -/
def mergeBelow (tier : Option RoutingQuad) : Merged :=
  (match tier with
    | none => i.start
    | some quad =>
      if i.caller.supplied .tier && !i.suppliesCore then i.start else i.start.mergeTier quad)
    |>.mergeValues i.manifest .manifest |>.mergeValues i.row .row

/-- A caller that names a backend without speeds does not get the speed of another source. -/
def clearSpeed (registry : Registry) (m : Merged) : Merged :=
  if i.isSpeedless registry && decide (m.sources .speed ≠ some .caller) then m.put .speed none none
  else m

/-- The fields of the caller, or the tier that it selects, merged. -/
def mergeCaller (registry : Registry) (tierTable : TierTable)
    (tier : Option RoutingQuad) (m : Merged) : Except Refusal Merged :=
  if i.suppliesCore then
    .ok (i.clearSpeed registry (if i.caller.supplied .tier then m.mergeValues i.caller .caller
      else (m.mergeValues i.caller .caller).putInferred
        (inferTier (i.caller.values .model) tierTable)))
  else if i.caller.supplied .tier then
    match tier with
    | some quad => .ok (m.mergeTier quad)
    | none => .error .noTierValue
  else .ok m

end Inputs

/-- The tier of the model, where none is resolved. -/
def fillTier (tierTable : TierTable) (m : Merged) : Merged :=
  if m.base .tier = none then m.putInferred (inferTier (m.base .model) tierTable) else m

/-- The checks of the model that is resolved against the tier table -/
def checkModel (tierTable : TierTable) (quad : RoutingQuad) : Except Refusal RoutingQuad :=
  match quad.model with
  | none => .ok quad
  | some model =>
    match tierTable.get? model with
    | none => .ok quad
    | some row =>
      if quad.backend ≠ none ∧ quad.backend ≠ some "codex-remote" then
        .error (.backendModelDisagreement (quad.backend.getD "") model)
      else if !row.entitled then .error (.modelNotEntitled model none)
      else if quad.tier ≠ none ∧ quad.tier ≠ inferTier (some model) tierTable then
        .error (.tierModelDisagreement model (inferTier (some model) tierTable) (quad.tier.getD ""))
      else .ok quad

/-- `resolve_routing_quad`, of sources that were read -/
def resolveInputs (registry : Registry) (tierTable : TierTable) (role : Option String)
    (allowPartialCaller : Bool) (i : Inputs) : Except Refusal (RoutingQuad × (Field → Option Origin)) := do
  i.check registry allowPartialCaller
  let tier ← i.tierValue registry tierTable role
  let m ← i.mergeCaller registry tierTable tier (i.mergeBelow tier)
  let quad ← checkModel tierTable (.ofValues (fillTier tierTable m.dropTier).base)
  return (quad, (fillTier tierTable m.dropTier).sources)

/-- What is known of a lane besides what its caller asks for. -/
structure Context where
  row : Source := .absent
  manifestEntry : Source := .absent
  profile : Source := .absent

/-- The sources as the resolver reads them. -/
def Context.inputs (context : Context) (caller : Source) : Inputs where
  caller := sourceValues caller rowKey
  row := sourceValues context.row rowKey
  manifest := sourceValues context.manifestEntry manifestKey
  profile := profileQuad context.profile

/-- `resolve_routing_quad` -/
def resolveRoutingQuad (registry : Registry) (tierTable : TierTable) (role : Option String)
    (allowPartialCaller : Bool) (caller : Source) (context : Context) :
    Except Refusal (RoutingQuad × (Field → Option Origin)) :=
  resolveInputs registry tierTable role allowPartialCaller (context.inputs caller)

end Workbay.Routing
