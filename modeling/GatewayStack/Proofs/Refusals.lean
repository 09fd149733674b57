import GatewayStack.Proofs.Grammar
import GatewayStack.Proofs.Stages

/-!
# When a compilation is refused

A compilation can be refused in three places, and they lie far apart: the
descriptors are checked before anything is made, the type of endpoint when the
API is, and the names of the API keys at the very end, when all the methods and
the deployment are in the template already. None of it is there after a refusal,
because what the stages fill is not the template of the caller.

Nothing else can go wrong, and none of the three checks looks at the template.
Both facts come from one equation, which says what a run comes to without
mentioning the template (`Compile.outline_events`). The only part of a report
that it leaves out is the deployment.
-/

namespace GatewayStack

open Grammar

/-- What a report says whatever the template was: the number of events
and the methods. -/
def Report.outline (report : Report) : Nat × List String :=
  (report.events, report.methodIds)

/-- One of the types of endpoint, in any ASCII case. -/
def IsEndpointType (given : String) : Prop :=
  Text.asciiUpper given ∈ ["EDGE", "REGIONAL", "PRIVATE"]

/-- An API with an endpoint of a known type is created, or none is. -/
def Provider.HasEndpoint (provider : Provider) : Prop :=
  provider.gateway.restApiId ≠ none ∨
    ∀ given, provider.endpointType = some given → IsEndpointType given

/-- There are descriptors, and they are accepted. -/
def Sound (descriptors : List Json) : Prop :=
  descriptors ≠ [] ∧ ∃ proxies, parse descriptors = .ok proxies

/-- Why a compilation is refused: for its descriptors, else for the endpoint of
the API that it creates, else for its API keys. -/
inductive Refused (provider : Provider) (descriptors : List Json) :
    CompileError → Prop
  | invalid {error : ValidationError} (h : parse descriptors = .error error) :
      Refused provider descriptors (.invalid error)
  | endpointType {given : String} (sound : Sound descriptors)
      (created : provider.gateway.restApiId = none)
      (h : provider.endpointType = some given)
      (unknown : ¬ IsEndpointType given) :
      Refused provider descriptors (.misconfigured (.endpointType given))
  | keysNotList {value : Json} (sound : Sound descriptors)
      (endpoint : provider.HasEndpoint) (h : provider.apiKeys = some value)
      (noList : value.items? = none) :
      Refused provider descriptors (.misconfigured .apiKeysNotList)
  | keyNotText {items : List Json} {key : Json} (sound : Sound descriptors)
      (endpoint : provider.HasEndpoint)
      (h : provider.apiKeys = some (.arr items))
      (mem : key ∈ items) (noText : ¬ IsText key) :
      Refused provider descriptors (.misconfigured .apiKeyNotString)

theorem Refused.nonempty {provider : Provider} {descriptors : List Json}
    {error : CompileError} (h : Refused provider descriptors error) :
    descriptors ≠ [] := by
  cases h with
  | invalid h =>
      rintro rfl
      have accepted : parse [] = .ok [] := rfl
      rw [accepted] at h
      cases h
  | endpointType sound | keysNotList sound | keyNotText sound => exact sound.1

/-! ## The checks -/

theorem EndpointType.ofString?_eq_none_iff {given : String} :
    ofString? given = none ↔ ¬ IsEndpointType given := by
  unfold ofString? IsEndpointType all
  rw [List.find?_eq_none]
  simp [text, eq_comm]

namespace RestApi

variable {provider : Provider} {reason : Misconfiguration}

theorem endpointType_eq_error_iff : endpointType provider = .error reason ↔
    ∃ given, provider.endpointType = some given ∧ ¬ IsEndpointType given ∧
      reason = .endpointType given := by
  unfold endpointType
  cases provider.endpointType with
  | none => simp
  | some given =>
      have unknown : EndpointType.ofString? given = none ↔
          ¬ IsEndpointType given :=
        EndpointType.ofString?_eq_none_iff
      cases htype : EndpointType.ofString? given with
      | none => simp [unknown.mp htype, htype, eq_comm]
      | some type =>
          rw [htype] at unknown
          simp_all

theorem stage_eq_error_iff : stage provider = .error reason ↔
    provider.gateway.restApiId = none ∧ ∃ given, provider.endpointType
      = some given ∧
      ¬ IsEndpointType given ∧ reason = .endpointType given := by
  rw [← endpointType_eq_error_iff]
  unfold stage Provider.usesExistingApi
  cases provider.gateway.restApiId with
  | some id => simp
  | none => cases endpointType provider <;> simp [Except.map]

/-- The API, where one is to be created, can be. -/
theorem exists_stage_iff : (∃ restApi, stage provider = .ok restApi) ↔
    provider.HasEndpoint := by
  unfold Provider.HasEndpoint
  cases hstage : stage provider with
  | ok restApi =>
      refine iff_of_true ⟨restApi, rfl⟩
        (or_iff_not_imp_left.mpr fun hid given hgiven => ?_)
      by_contra unknown
      have refused : stage provider = .error (.endpointType given) :=
        stage_eq_error_iff.mpr ⟨not_not.mp hid, given, hgiven, unknown, rfl⟩
      rw [hstage] at refused
      cases refused
  | error reason =>
      obtain ⟨hid, given, hgiven, unknown, -⟩ := stage_eq_error_iff.mp hstage
      refine iff_of_false (fun ⟨_, hok⟩ => ?_)
        (not_or.mpr ⟨not_not.mpr hid, fun known => ?_⟩)
      · cases hok
      · exact unknown (known given hgiven)

end RestApi

namespace ApiKeys

theorem namesIn_eq_error_iff {items : List Json} {reason : Misconfiguration} :
    namesIn items = .error reason ↔
      reason = .apiKeyNotString ∧ ∃ key ∈ items, ¬ IsText key := by
  induction items with
  | nil => simp [namesIn]
  | cons item rest ih =>
      cases item with
      | str name =>
          have text : IsText (.str name) := ⟨name, rfl⟩
          rw [namesIn]
          cases hrest : namesIn rest <;> simp_all [Except.map]
      | _ => simp [namesIn, IsText, eq_comm]

theorem names_eq_error_iff {given : Option Json} {reason : Misconfiguration} :
    names given = .error reason ↔
      (∃ value, given = some value ∧ value.items? = none ∧
        reason = .apiKeysNotList) ∨
        ∃ items, given = some (.arr items) ∧ (∃ key ∈ items, ¬ IsText key) ∧
          reason = .apiKeyNotString := by
  cases given with
  | none => simp [names]
  | some value =>
      cases value with
      | arr items =>
          rw [names, namesIn_eq_error_iff]
          simp [Json.items?, and_comm]
      | _ => simp [names, Json.items?, eq_comm]

end ApiKeys

/-! ## What a run comes to -/

namespace Compile

/-- What a run comes to on any template. -/
def outline (provider : Provider) (normalized : Normalized) :
    Except Misconfiguration (Nat × List String) := do
  let restApi ← RestApi.stage provider
  let _ ← ApiKeys.names provider.apiKeys
  return (normalized.events.length,
    (stages provider normalized restApi).flatMap Fragment.methodIds)

theorem outline_events (provider : Provider) (normalized : Normalized)
    (template : Template) :
    (events provider normalized template).map (fun result => result.1.outline)
      = outline provider normalized := by
  cases hapi : RestApi.stage provider with
  | error reason =>
      rw [events_eq_error hapi]
      unfold outline
      rw [hapi]
      rfl
  | ok restApi =>
      rw [events_eq hapi]
      unfold outline ApiKeys.stage
      rw [hapi]
      cases ApiKeys.names provider.apiKeys <;> rfl

theorem outline_eq_error_iff {provider : Provider} {normalized : Normalized}
    {reason : Misconfiguration} :
    outline provider normalized = .error reason ↔
      RestApi.stage provider = .error reason ∨
      (∃ restApi, RestApi.stage provider = .ok restApi) ∧
        ApiKeys.names provider.apiKeys = .error reason := by
  unfold outline
  cases RestApi.stage provider with
  | error other => simp [bind, Except.bind]
  | ok restApi =>
      cases ApiKeys.names provider.apiKeys <;> simp [bind, Except.bind,
        pure, Except.pure]

theorem events_eq_error_iff {provider : Provider} {normalized : Normalized}
    {template : Template} {reason : Misconfiguration} :
    events provider normalized template = .error reason ↔
      RestApi.stage provider = .error reason ∨
        (∃ restApi, RestApi.stage provider = .ok restApi) ∧
        ApiKeys.names provider.apiKeys = .error reason := by
  rw [← outline_eq_error_iff, ← outline_events provider normalized template]
  cases events provider normalized template <;> simp [Except.map]

end Compile

/-! ## What a compilation comes to -/

/-- The reasons that are left once the descriptors are accepted. -/
theorem refused_misconfigured_iff {provider : Provider}
    {descriptors : List Json} (sound : Sound descriptors)
    {reason : Misconfiguration} :
    Refused provider descriptors (.misconfigured reason) ↔
      RestApi.stage provider = .error reason ∨
        (∃ restApi, RestApi.stage provider = .ok restApi) ∧
        ApiKeys.names provider.apiKeys = .error reason := by
  rw [RestApi.exists_stage_iff, RestApi.stage_eq_error_iff,
    ApiKeys.names_eq_error_iff]
  refine ⟨fun h => ?_, ?_⟩
  · cases h with
    | endpointType _ created hgiven unknown =>
        exact Or.inl ⟨created, _, hgiven, unknown, rfl⟩
    | keysNotList _ endpoint hkeys noList =>
        exact Or.inr ⟨endpoint, Or.inl ⟨_, hkeys, noList, rfl⟩⟩
    | keyNotText _ endpoint hkeys mem noText =>
        exact Or.inr ⟨endpoint, Or.inr ⟨_, hkeys, ⟨_, mem, noText⟩, rfl⟩⟩
  · rintro (⟨created, given, hgiven, unknown, rfl⟩ |
      ⟨endpoint, ⟨value, hkeys, noList, rfl⟩ |
        ⟨items, hkeys, ⟨key, mem, noText⟩, rfl⟩⟩)
    · exact .endpointType sound created hgiven unknown
    · exact .keysNotList sound endpoint hkeys noList
    · exact .keyNotText sound endpoint hkeys mem noText

namespace Compile

theorem compile_fst {provider : Provider} {descriptors : List Json}
    {template : Template} (nonempty : descriptors ≠ []) :
      (compile provider descriptors template).1
        = (Compile.descriptors provider descriptors template).map Prod.fst := by
  rw [compile_eq nonempty]
  rcases Compile.descriptors provider descriptors template with error |
    ⟨report, after⟩ <;> rfl

theorem descriptors_eq_error_iff {provider : Provider} {descriptors : List Json}
    {template : Template} {error : CompileError} (nonempty : descriptors ≠ []) :
    Compile.descriptors provider descriptors template = .error error ↔
      Refused provider descriptors error := by
  unfold Compile.descriptors
  cases hparse : parse descriptors with
  | error invalid =>
      refine ⟨fun h => ?_, fun h => ?_⟩
      · rw [← Except.error.inj h]
        exact .invalid hparse
      · cases h with
        | invalid h => rw [hparse] at h; rw [Except.error.inj h]
        | endpointType sound | keysNotList sound | keyNotText sound =>
            obtain ⟨-, proxies, haccepted⟩ := sound
            rw [hparse] at haccepted
            cases haccepted
  | ok proxies =>
      have sound : Sound descriptors := ⟨nonempty, proxies, hparse⟩
      rw [mapError_eq_error]
      refine ⟨?_, fun h => ?_⟩
      · rintro ⟨reason, hevents, rfl⟩
        exact (refused_misconfigured_iff sound).mpr
          (events_eq_error_iff.mp hevents)
      · cases error with
        | invalid invalid =>
            cases h with
            | invalid h => rw [hparse] at h; cases h
        | misconfigured reason =>
            have hreason := (refused_misconfigured_iff sound).mp h
            exact ⟨reason, events_eq_error_iff.mpr hreason, rfl⟩

/-- The outcome of a compilation without the deployment. -/
theorem map_outline_compile (provider : Provider) {descriptors : List Json}
    (nonempty : descriptors ≠ []) (template : Template) :
    (compile provider descriptors template).1.map Report.outline =
      ((parse descriptors).mapError CompileError.invalid).bind fun proxies =>
        (outline provider (Normalized.ofProxies proxies)).mapError
            .misconfigured := by
  rw [compile_fst nonempty, Compile.descriptors]
  cases parse descriptors with
  | error error => rfl
  | ok proxies =>
      show _ = Except.mapError _ _
      rw [← outline_events provider (Normalized.ofProxies proxies) template]
      dsimp only
      cases events provider (Normalized.ofProxies proxies) template <;> rfl

end Compile

/-- A compilation without descriptors does nothing. Any other is refused for
its descriptors, for the endpoint of an API that it would create, or for its
API keys, the first of these that applies deciding, and for nothing else, and
then leaves the template as it was. Whether it is refused and why, and
otherwise how many events it counts and which methods it makes, is the same for
every template. -/
theorem compile_refused_iff (provider : Provider) (descriptors : List Json) :
    (∀ template, compile provider [] template = (.ok Report.empty, template)) ∧
      (∀ template after error, compile provider descriptors template
        = (.error error, after) ↔
        Refused provider descriptors error ∧ after = template) ∧
      ∀ a b, (compile provider descriptors a).1.map Report.outline
        = (compile provider descriptors b).1.map Report.outline := by
  refine ⟨Compile.compile_nil provider, fun template after error => ?_,
    fun a b => ?_⟩
  · by_cases empty : descriptors = []
    · subst empty
      refine iff_of_false (fun h => ?_) fun h => absurd rfl h.1.nonempty
      cases h
    · rw [← Compile.descriptors_eq_error_iff empty, Compile.compile_eq empty]
      rcases Compile.descriptors provider descriptors template with reason |
        result
      · simp [Prod.ext_iff, eq_comm]
      · simp
  · by_cases empty : descriptors = []
    · rw [empty]
      rfl
    · rw [Compile.map_outline_compile provider empty,
        Compile.map_outline_compile provider empty]

end GatewayStack
