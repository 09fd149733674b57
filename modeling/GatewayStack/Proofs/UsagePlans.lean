import GatewayStack.Project.Decode
import GatewayStack.Proofs.Frame
import GatewayStack.Proofs.References
import GatewayStack.Proofs.Tokens

/-!
# The wiring of API keys and the usage plan

Three lists have to line up: the names of the keys as they are configured, the
keys, which are counted from one, and their bindings to the plan, which are
counted by themselves. The entries of the stage are written under ids of three
kinds, and within a kind the number tells them apart. So no entry is written
over another, whatever the names are, and the stage makes just its entries
(`ApiKeys.stage_eq_entries`).

Keys and plan depend on the deployment that the run found or made. Nothing that
the run writes afterwards is under its id, provided that no id of the template
begins like the ids of keys and plan, and so it is still a deployment at the end
(`Compile.deployment_kept`).
-/

namespace GatewayStack

open LogicalId

/-! ## Optional members -/

/-- The value is a mapping of exactly those of some members that have a
value. -/
def Json.Carries (value : Json)
    (members : List (String × Option Json)) : Prop :=
  ∃ fields, value = .obj fields ∧ Fields.Distinct fields ∧
    ∀ name inner, (name, inner) ∈ fields ↔ (name, some inner) ∈ members

theorem mem_optionalProperty {name other : String} {value : Option Json}
    {inner : Json} :
    (other, inner) ∈ optionalProperty name value ↔
      (name, value) = (other, some inner) := by
  cases value <;> simp [optionalProperty, eq_comm]

/-- The members that have a value, as fields. -/
def optionalProperties (members : List (String × Option Json)) : Fields Json :=
  members.flatMap fun member => optionalProperty member.1 member.2

theorem keys_optionalProperties_sublist
    (members : List (String × Option Json)) :
    List.Sublist (Fields.keys (optionalProperties members))
      (members.map Prod.fst) := by
  induction members with
  | nil => exact List.Sublist.refl _
  | cons member rest ih =>
      obtain ⟨name, value⟩ := member
      cases value with
      | none => exact ih.cons name
      | some value => exact ih.cons_cons name

theorem carries_optionalProperties {members : List (String × Option Json)}
    (distinct : (members.map Prod.fst).Nodup) :
    (Json.obj (optionalProperties members)).Carries members := by
  refine ⟨_, rfl, distinct.sublist (keys_optionalProperties_sublist members),
    fun name inner => ?_⟩
  unfold optionalProperties
  rw [List.mem_flatMap]
  simp only [mem_optionalProperty, exists_eq_right]

theorem Json.Carries.field? {value inner : Json}
    {members : List (String × Option Json)} {name : String}
    (h : value.Carries members) (hmem : (name, some inner) ∈ members) :
    value.field? name = some inner := by
  obtain ⟨fields, rfl, distinct, hfields⟩ := h
  exact Fields.get?_of_mem distinct ((hfields name inner).mpr hmem)

/-! ## Limits -/

namespace ApiKeys

/-- The members of a quota. -/
def quotaLimits (quota : Quota) : List (String × Option Json) :=
  [("Limit", quota.limit.map Json.nat), ("Offset", quota.offset.map Json.nat),
    ("Period", quota.period.map Json.str)]

/-- A configured rate in a template: the number itself, and `null` for a rate
that JSON has no number for. -/
def rateValue : Rate → Json
  | .finite x => .num (.real x)
  | .infinite _ => .null
  | .nan => .null

theorem rateValue_eq (rate : Rate) : rateValue rate = rate.toJson := by
  cases rate <;> rfl

/-- The members of a throttle. -/
def throttleLimits (throttle : Throttle) : List (String × Option Json) :=
  [("BurstLimit", throttle.burstLimit.map Json.nat),
    ("RateLimit", throttle.rate.map rateValue)]

theorem carries_quotaMembers (quota : Quota) :
    (quotaMembers quota).Carries (quotaLimits quota) := by
  have distinct : ((quotaLimits quota).map Prod.fst).Nodup := by
    simp [quotaLimits]
  simpa [optionalProperties, quotaLimits, quotaMembers]
    using carries_optionalProperties distinct

theorem carries_throttleMembers (throttle : Throttle) :
    (throttleMembers throttle).Carries (throttleLimits throttle) := by
  have distinct : ((throttleLimits throttle).map Prod.fst).Nodup := by
    simp [throttleLimits]
  have rates : rateValue = Rate.toJson := funext rateValue_eq
  simpa [optionalProperties, throttleLimits, throttleMembers, rates]
    using carries_optionalProperties distinct

/-- A file that is JSON can only configure rates that are numbers, and these are
carried as they are. -/
theorem throttleLimits_of_read {value : Json} {throttle : Throttle}
    (h : Project.throttle? value = some throttle) :
    throttleLimits throttle = [("BurstLimit", throttle.burstLimit.map Json.nat),
      ("RateLimit", throttle.rateLimit.map fun rate => .num (.real rate))] := by
  unfold Project.throttle? at h
  simp only [Option.bind_eq_bind, Option.bind_eq_some_iff, Option.pure_def,
    Option.some.injEq] at h
  obtain ⟨fields, -, burstLimit, -, rate, hrate, rfl⟩ := h
  have finite : rate = none ∨ ∃ x, rate = some (.finite x) := by
    unfold Project.optional at hrate
    split at hrate
    · exact Or.inl (Option.some.inj hrate).symm
    · exact Or.inl (Option.some.inj hrate).symm
    · obtain ⟨_, hread, rfl⟩ := Option.map_eq_some_iff.mp hrate
      obtain ⟨x, -, rfl⟩ := Option.map_eq_some_iff.mp hread
      exact Or.inr ⟨x, rfl⟩
  rcases finite with rfl | ⟨x, rfl⟩ <;> rfl

/-! ## The three kinds of resources -/

variable {provider : Provider} {api : Api} {deploymentId name : String}
  {n : Nat}

/-- A key with a name, which depends on a deployment. -/
structure IsKey (deploymentId name : String) (key : Json) : Prop where
  type : key.field? "Type" = some (.str "AWS::ApiGateway::ApiKey")
  name : key.at? ["Properties", "Name"] = some (.str name)
  dependsOn : key.field? "DependsOn" = some (.str deploymentId)

/-- The members of the plan: the stage that it is for, what it is called,
and its limits. -/
def planMembers (provider : Provider) (api : Api)
    (quota throttle : Option Json) :
    List (String × Option Json) :=
  [("ApiStages",
      some (.arr [.obj [("ApiId", api.restApiId),
        ("Stage", .str provider.stage)]])),
    ("Description", some (.str
      ("Usage plan for " ++ provider.service ++ " " ++
        provider.stage ++ " stage"))),
    ("UsagePlanName", some (.str (provider.service ++ "-" ++ provider.stage))),
    ("Quota", quota), ("Throttle", throttle)]

/-- The plan, which depends on a deployment, with the limits that are
configured. -/
structure IsPlan (provider : Provider) (api : Api) (deploymentId : String)
    (plan : Json) :
    Prop where
  type : plan.field? "Type" = some (.str "AWS::ApiGateway::UsagePlan")
  dependsOn : plan.field? "DependsOn" = some (.str deploymentId)
  limits : ∃ properties quota throttle, plan.field? "Properties"
    = some properties ∧
    properties.Carries (planMembers provider api quota throttle) ∧
    Option.Rel Json.Carries quota
      ((provider.usagePlan.bind UsagePlan.quota).map quotaLimits) ∧
    Option.Rel Json.Carries throttle
      ((provider.usagePlan.bind UsagePlan.throttle).map throttleLimits)

/-- The binding of a key to the plan. -/
structure IsBinding (n : Nat) (binding : Json) : Prop where
  type : binding.field? "Type" = some (.str "AWS::ApiGateway::UsagePlanKey")
  key : binding.at? ["Properties", "KeyId"]
    = some (Intrinsic.ref (LogicalId.apiKey n))
  plan : binding.at? ["Properties", "UsagePlanId"]
    = some (Intrinsic.ref LogicalId.usagePlan)
  refers : ∀ id, binding.RefersTo id ↔ id = LogicalId.apiKey n ∨
    id = LogicalId.usagePlan

theorem isKey_keyResource :
    IsKey deploymentId name (keyResource provider api deploymentId name) :=
  ⟨rfl, rfl, rfl⟩

theorem isBinding_bindingResource : IsBinding n (bindingResource n) where
  type := rfl
  key := rfl
  plan := rfl
  refers id := by rw [refersTo_bindingResource, eq_comm,
    @eq_comm _ LogicalId.usagePlan]

theorem rel_map {α β γ : Type} {r : β → γ → Prop} {f : α → β} {g : α → γ}
    (h : ∀ a, r (f a) (g a)) (given : Option α) :
    Option.Rel r (given.map f) (given.map g) := by
  cases given with
  | none => exact .none
  | some a => exact .some (h a)

theorem isPlan_planResource :
    IsPlan provider api deploymentId
      (planResource provider api deploymentId) where
  type := rfl
  dependsOn := rfl
  limits := by
    refine ⟨_, _, _, rfl, ?_, rel_map carries_quotaMembers _,
      rel_map carries_throttleMembers _⟩
    have distinct (quota throttle : Option Json) :
        ((planMembers provider api quota throttle).map Prod.fst).Nodup := by
      simp [planMembers]
    simpa [optionalProperties, planMembers, optionalProperty] using
      carries_optionalProperties (distinct _ _)

/-- The plan has the members of the throttle that is configured. -/
theorem IsPlan.throttle {plan : Json}
    (h : IsPlan provider api deploymentId plan) {limits : Throttle}
    (given : provider.usagePlan.bind UsagePlan.throttle = some limits) :
    ∃ members, plan.at? ["Properties", "Throttle"] = some members ∧
      members.Carries (throttleLimits limits) := by
  obtain ⟨properties, quota, throttle, hproperties, carried, -, limited⟩ :=
    h.limits
  rw [given] at limited
  cases limited with
  | @some members _ limited =>
      have hmem : ("Throttle", some members) ∈
          planMembers provider api quota (some members) := by
        simp [planMembers]
      refine ⟨members, ?_, limited⟩
      rw [Json.at?_cons, hproperties, Option.bind_some, Json.at?_cons,
        carried.field? hmem]
      rfl

/-! ## The entries of the stage -/

theorem namesIn_strings (names : List String) :
    namesIn (names.map Json.str) = .ok names := by
  induction names with
  | nil => rfl
  | cons name rest ih =>
      rw [List.map_cons, namesIn, ih]
      rfl

/-- No number is given twice, and what is numbered is told apart by its kind. -/
theorem nodup_keyIds (provider : Provider) : provider.keyIds.Nodup := by
  have numbers : (List.range' 1 provider.keyCount).Nodup := List.nodup_range'
  have fresh : LogicalId.usagePlan ∉
      (List.range' 1 provider.keyCount).map LogicalId.usagePlanKey := by
    intro hmem
    obtain ⟨n, -, heq⟩ := List.mem_map.mp hmem
    exact not_usagePlan_of_usagePlanKey .usagePlan (heq ▸ .usagePlanKey n)
  unfold Provider.keyIds
  split
  · refine (numbers.map apiKey_injective).append
      (List.nodup_cons.mpr ⟨fresh, numbers.map usagePlanKey_injective⟩)
      fun id hkey hlater => ?_
    obtain ⟨n, -, rfl⟩ := List.mem_map.mp hkey
    have key := OfKind.apiKey n
    rcases List.mem_cons.mp hlater with heq | hlater
    · rw [heq] at key
      exact absurd (key.unique .usagePlan) (by decide)
    · obtain ⟨m, -, heq⟩ := List.mem_map.mp hlater
      rw [← heq] at key
      exact absurd (key.unique (.usagePlanKey m)) (by decide)
  · rw [List.append_nil]
    exact numbers.map apiKey_injective

section stage

variable {names : List String}

theorem distinct_entries (h : ApiKeys.names provider.apiKeys = .ok names) :
    Fields.Distinct (entries provider api deploymentId names) := by
  unfold Fields.Distinct
  rw [keys_entries h]
  exact nodup_keyIds provider

/-- Nothing is written over, so the stage makes just its entries. -/
theorem stage_eq_entries (h : ApiKeys.names provider.apiKeys = .ok names) :
    stage provider api deploymentId
      = .ok ⟨entries provider api deploymentId names, [], []⟩ := by
  have hset : Fields.setAll [] (entries provider api deploymentId names)
      = entries provider api deploymentId names :=
    Fields.setAll_of_distinct (distinct_entries h)
  unfold stage
  rw [h]
  exact congrArg (fun resources => Except.ok (Fragment.mk resources [] [])) hset

/-- How names, keys, plan and bindings go together in a fragment. -/
structure Wired (provider : Provider) (api : Api) (deploymentId : String)
    (names : List String) (fragment : Fragment) : Prop where
  /-- A key for each name, and with a plan the plan and a binding for each
  key. -/
  ids : Fields.keys fragment.resources
    = (List.range' 1 names.length).map LogicalId.apiKey ++
      if provider.apiKeys.isSome ∨ provider.usagePlan.isSome then
      LogicalId.usagePlan :: (List.range' 1 names.length).map
        LogicalId.usagePlanKey
    else []
  distinct : (Fields.keys fragment.resources).Nodup
  /-- Nothing else is in it. -/
  bare : fragment.outputs = [] ∧ fragment.methodIds = []
  key : ∀ i name, names[i]? = some name → ∃ key,
    Fields.get? fragment.resources (LogicalId.apiKey (i + 1)) = some key ∧
      IsKey deploymentId name key
  plan : provider.apiKeys.isSome ∨ provider.usagePlan.isSome → ∃ plan,
    Fields.get? fragment.resources LogicalId.usagePlan = some plan ∧
      IsPlan provider api deploymentId plan
  binding : ∀ i < names.length, ∃ binding,
    Fields.get? fragment.resources (LogicalId.usagePlanKey (i + 1))
      = some binding ∧
      IsBinding (i + 1) binding
  /-- What the bindings refer to is there. -/
  closed : ∀ n binding id, Fields.get? fragment.resources
      (LogicalId.usagePlanKey n)
    = some binding → binding.RefersTo id → id ∈ Fields.keys fragment.resources

theorem mem_entries_plan
    (h : provider.apiKeys.isSome ∨ provider.usagePlan.isSome) :
    (LogicalId.usagePlan, planResource provider api deploymentId)
      ∈ entries provider api deploymentId names := by
  unfold entries
  rw [if_neg (plan_iff.mpr h)]
  exact List.mem_append_right _ List.mem_cons_self

theorem mem_entries_key {i : Nat} (h : names[i]? = some name) :
    (LogicalId.apiKey (i + 1), keyResource provider api deploymentId name)
      ∈ entries provider api deploymentId names := by
  refine List.mem_append_left _ (mem_keysFrom.mpr ⟨i, name, h, ?_, rfl⟩)
  rw [Nat.add_comm]

theorem mem_entries_binding
    (h : provider.apiKeys.isSome ∨ provider.usagePlan.isSome) {i : Nat}
    (bound : i < names.length) :
    (LogicalId.usagePlanKey (i + 1), bindingResource (i + 1))
      ∈ entries provider api deploymentId names := by
  unfold entries
  rw [if_neg (plan_iff.mpr h)]
  refine List.mem_append_right
    _ (List.mem_cons_of_mem _ (mem_bindingsFrom.mpr ⟨i, bound, ?_⟩))
  rw [Nat.add_comm]
  exact ⟨rfl, rfl⟩

/-- An entry under the id of a binding is the binding of one of the keys. -/
theorem binding_of_mem_entries {n : Nat} {binding : Json}
    (h : (LogicalId.usagePlanKey n, binding) ∈
      entries provider api deploymentId names) :
    (provider.apiKeys.isSome ∨ provider.usagePlan.isSome) ∧
      ∃ i < names.length, binding = bindingResource (i + 1) := by
  have key := OfKind.usagePlanKey n
  rcases List.mem_append.mp h with h | h
  · obtain ⟨i, name, -, heq, -⟩ := mem_keysFrom.mp h
    rw [heq] at key
    exact absurd (key.unique (.apiKey _)) (by decide)
  · split at h
    · cases h
    next plan =>
      rcases List.mem_cons.mp h with heq | h
      · rw [(Prod.mk.inj heq).1] at key
        exact absurd (key.unique .usagePlan) (by decide)
      · obtain ⟨i, bound, -, rfl⟩ := mem_bindingsFrom.mp h
        exact ⟨plan_iff.mp plan, i, bound, by rw [Nat.add_comm]⟩

theorem wired_entries
    (h : ApiKeys.names provider.apiKeys = .ok names) (api : Api)
    (deploymentId : String) :
    Wired provider api deploymentId names
      ⟨entries provider api deploymentId names, [], []⟩ := by
  have distinct : Fields.Distinct (entries provider api deploymentId names) :=
    distinct_entries h
  -- A name makes a key, and where there are keys there is a plan for them.
  have planned : ∀ i < names.length, provider.apiKeys.isSome ∨
      provider.usagePlan.isSome := by
    intro i bound
    rcases names_eq_ok h with ⟨-, rfl⟩ | hgiven
    · cases bound
    · exact Or.inl (hgiven ▸ rfl)
  have ids := keys_entries h api deploymentId
  rw [Provider.keyIds, ← length_names h] at ids
  refine ⟨ids, distinct, ⟨rfl, rfl⟩, fun i name hname => ?_, fun plan => ?_,
    fun i bound => ?_, fun n binding id hbinding refers => ?_⟩
  · exact ⟨_, Fields.get?_of_mem distinct (mem_entries_key hname),
      isKey_keyResource⟩
  · exact ⟨_, Fields.get?_of_mem distinct (mem_entries_plan plan),
      isPlan_planResource⟩
  · exact ⟨_, Fields.get?_of_mem distinct
      (mem_entries_binding (planned i bound) bound), isBinding_bindingResource⟩
  · obtain ⟨plan, i, bound, rfl⟩ :=
      binding_of_mem_entries (Fields.mem_of_get? hbinding)
    rcases refersTo_bindingResource.mp refers with rfl | rfl
    · exact Fields.mem_keys_of_mem
        (mem_entries_key (List.getElem?_eq_getElem bound))
    · exact Fields.mem_keys_of_mem (mem_entries_plan plan)

end stage

/-- The names are accepted, whatever they are. -/
theorem names_configured {names : List String}
    (configured : provider.apiKeys = none ∧ names = [] ∨
      provider.apiKeys = some (Json.strings names)) :
    ApiKeys.names provider.apiKeys = .ok names := by
  rcases configured with ⟨hnone, rfl⟩ | hgiven
  · rw [hnone]
    rfl
  · rw [hgiven]
    exact namesIn_strings names

end ApiKeys

/-! ## The deployment at the end of a run -/

namespace Compile

variable {provider : Provider} {normalized : Normalized} {template : Template}
  {restApi keys : Fragment}

/-- The template has no id that begins like those of the generated resources
but the roles. -/
def Unclaimed (template : Template) : Prop :=
  ∀ id ∈ Fields.keys template.resources, ¬ "ApiGateway".toList <+: id.toList

/-- What the stages before the deployment leave free for the keys and the
plan. -/
theorem not_mem_keys_staged (hapi : RestApi.stage provider = .ok restApi)
    (unclaimed : Unclaimed template) {kind : Kind} {id : String}
    (hid : OfKind kind id) (late : ¬ EarlyKind kind) :
    id ∉ Fields.keys (mergeAll template
      (stages provider normalized restApi)).resources := by
  have word : "ApiGateway".toList <+: kind.word.toList := by
    revert late
    cases kind <;> decide
  intro hmem
  rcases mem_keys_mergeAll.mp hmem with hmem | ⟨fragment, hfragment, hmem⟩
  · exact unclaimed id hmem (word.trans hid.begins_with_word)
  · exact (kinded_stages hapi fragment hfragment).not_mem_keys hid late hmem

/-- No key is under the id of the deployment. -/
theorem wired_not_mem_keys (hapi : RestApi.stage provider = .ok restApi)
    (unclaimed : Unclaimed template)
    (hkeys : ApiKeys.stage provider (Api.ofProvider provider)
      (wired provider normalized template restApi).2 = .ok keys) :
    (wired provider normalized template restApi).2 ∉
      Fields.keys keys.resources := by
  intro hmem
  obtain ⟨kind, late, hid⟩ := (ApiKeys.kinded hkeys).of_mem_keys hmem
  rcases wired_cases provider normalized template restApi with
    ⟨id, existing, hfound, hwired⟩ | ⟨-, hwired⟩
  · rw [hwired] at hid
    refine not_mem_keys_staged hapi unclaimed hid ?_
      (Fields.mem_keys_of_mem (List.mem_of_find?_eq_some hfound))
    rcases late with rfl | rfl | rfl <;> decide
  · rw [hwired] at hid
    rw [hid.unique (.deployment _)] at late
    exact absurd late (by decide)

/-- What the run is wired to is a deployment in the end. -/
theorem deployment_kept (distinct : Fields.Distinct template.resources)
    (hapi : RestApi.stage provider = .ok restApi)
    (unclaimed : Unclaimed template)
    (hkeys : ApiKeys.stage provider (Api.ofProvider provider)
      (wired provider normalized template restApi).2 = .ok keys) :
    ∃ deployment, (mergeAll template (stages provider normalized restApi ++
        [(wired provider normalized template restApi).1, keys])).resource?
          (wired provider normalized template restApi).2 = some deployment ∧
      deployment.field? "Type" = some (.str Deployment.type) := by
  have kept := wired_not_mem_keys hapi unclaimed hkeys
  rcases wired_cases provider normalized template restApi with
    ⟨id, existing, hfound, hwired⟩ | ⟨-, hwired⟩
  · obtain ⟨fields, -, -, htype, hresource⟩ :=
      extended distinct hapi keys hfound hwired
    rw [hwired] at kept hresource ⊢
    refine ⟨_, hresource kept, ?_⟩
    rw [Deployment.withDependencies_field? (by decide)]
    exact htype
  · have fresh : LogicalId.deployment provider.token ∉
        Fields.keys (mergeAll template
          (stages provider normalized restApi)).resources :=
      not_mem_keys_staged hapi unclaimed (.deployment provider.token)
        (by decide)
    rw [hwired] at kept ⊢
    refine ⟨Deployment.resource provider (Api.ofProvider provider)
      ((stages provider normalized restApi).flatMap Fragment.methodIds), ?_,
      rfl⟩
    rw [mergeAll_append, Template.resource?]
    show Fields.get? (Json.mergeFields (Json.mergeFields _ [(_, _)])
      keys.resources) _ = _
    rw [Json.get?_mergeFields_of_not_mem kept,
      Json.mergeFields_singleton _ fresh, Fields.get?_append,
      Fields.get?_eq_none_iff.mpr fresh, Fields.get?, if_pos rfl]
    rfl

/-- What the run makes for the keys is in the template in the end. -/
theorem keys_kept (hapi : RestApi.stage provider = .ok restApi)
    (unclaimed : Unclaimed template)
    (hkeys : ApiKeys.stage provider (Api.ofProvider provider)
        (wired provider normalized template restApi).2
      = .ok keys) {id : String} {key : Json}
    (h : Fields.get? keys.resources id = some key) :
    (mergeAll template (stages provider normalized restApi ++
        [(wired provider normalized template restApi).1, keys])).resource? id
      = some key := by
  have hmem := Fields.mem_keys_of_mem (Fields.mem_of_get? h)
  have other : id ≠ (wired provider normalized template restApi).2 := by
    rintro rfl
    exact wired_not_mem_keys hapi unclaimed hkeys hmem
  obtain ⟨kind, late, hid⟩ := (ApiKeys.kinded hkeys).of_mem_keys hmem
  have fresh : id ∉ Fields.keys
      (mergeAll template (stages provider normalized restApi)).resources :=
    not_mem_keys_staged hapi unclaimed hid
      (by rcases late with rfl | rfl | rfl <;> decide)
  obtain ⟨value, hvalue⟩ :=
    exists_resources_wired provider normalized template restApi
  rw [mergeAll_append, Template.resource?]
  show Fields.get? (Json.mergeFields (Json.mergeFields _
    (wired provider normalized template restApi).1.resources)
    keys.resources) id = _
  rw [Json.get?_mergeFields (ApiKeys.distinct hkeys), h, hvalue,
    Json.get?_mergeFields_of_not_mem (by simpa using other),
    Fields.get?_eq_none_iff.mpr fresh]
  rfl

end Compile

/-- The keys of a configuration with a list of names, or without one. The stage
makes a key for each name, in order and depending on the deployment; if there is
a list or a plan, the plan with its limits, depending on the deployment; and a
binding of each key to the plan. The plan has a member for each limit that is
configured and no other, with `null` for a rate that is no number. No id is used
twice, and what the bindings refer to is there. In a template without ids that
begin like these, a run leaves all of this as it is made, and what it depends on
is a deployment. -/
theorem keys_bound_to_plan {provider : Provider} {names : List String}
    (configured : provider.apiKeys = none ∧ names = [] ∨
      provider.apiKeys = some (Json.strings names)) :
    (∀ api deploymentId, ∃ fragment, ApiKeys.stage provider api deploymentId
      = .ok fragment ∧
      ApiKeys.Wired provider api deploymentId names fragment) ∧
    ∀ descriptors template report compiled, descriptors ≠ [] →
      Fields.Distinct template.resources →
      (∀ id ∈ Fields.keys template.resources,
        ¬ "ApiGateway".toList <+: id.toList) →
      compile provider descriptors template = (.ok report, compiled) →
      ∃ deploymentId fragment deployment, report.deploymentId
        = some deploymentId ∧
        ApiKeys.stage provider (Api.ofProvider provider) deploymentId
          = .ok fragment ∧
        (∀ id key, Fields.get? fragment.resources id = some key →
          compiled.resource? id = some key) ∧
        compiled.resource? deploymentId = some deployment ∧
        deployment.field? "Type"
          = some (.str "AWS::ApiGateway::Deployment") := by
  have hnames := ApiKeys.names_configured configured
  refine ⟨fun api deploymentId => ⟨_, ApiKeys.stage_eq_entries hnames,
    ApiKeys.wired_entries hnames api deploymentId⟩, ?_⟩
  intro descriptors template report compiled nonempty distinct unclaimed h
  obtain ⟨proxies, -, hevents⟩ := Compile.compile_eq_ok nonempty h
  obtain ⟨restApi, keys, hapi, hkeys, rfl, rfl⟩ := Compile.events_eq_ok hevents
  obtain ⟨deployment, hdeployment, htype⟩ :=
    Compile.deployment_kept distinct hapi unclaimed hkeys
  exact ⟨_, keys, deployment, rfl, hkeys, fun id key =>
    Compile.keys_kept hapi unclaimed hkeys, hdeployment, htype⟩

/-- Two keys of one name, a plan without a limit on its rate, and a deployment
that is there already. -/
theorem keys_bound_to_plan_release :
    let provider := { Provider.ofStage "shop" "dev" "1" with
      apiKeys := some (Json.strings ["team", "team"])
      usagePlan := some ⟨none, some ⟨some 200, some (.infinite false)⟩⟩ }
    let template : Template :=
      ⟨[], [("Release", .obj [("Type", "AWS::ApiGateway::Deployment")])], []⟩
    (provider.apiKeys = none ∧ ["team", "team"] = [] ∨
      provider.apiKeys = some (Json.strings ["team", "team"])) ∧
    Fields.Distinct template.resources ∧
    (∀ id ∈ Fields.keys template.resources,
      ¬ "ApiGateway".toList <+: id.toList) ∧
    ∃ compiled key plan throttle, compile provider
          [topicDescriptor "a" "get"] template
        = (.ok ⟨1, ["ApiGatewayMethodAGet"], some "Release"⟩, compiled) ∧
      compiled.resource? "ApiGatewayApiKey2" = some key ∧
      ApiKeys.IsKey "Release" "team" key ∧
      compiled.resource? "ApiGatewayUsagePlan" = some plan ∧
      plan.at? ["Properties", "Throttle"] = some throttle ∧
      throttle.Carries [("BurstLimit", some (.nat 200)),
        ("RateLimit", some .null)] := by
  intro provider template
  have configured : provider.apiKeys = none ∧ ["team", "team"] = [] ∨
      provider.apiKeys = some (Json.strings ["team", "team"]) := Or.inr rfl
  have distinct : Fields.Distinct template.resources := List.nodup_singleton _
  have unclaimed : ∀ id ∈ Fields.keys template.resources,
      ¬ "ApiGateway".toList <+: id.toList := by decide
  have h := compile_eq_of_report
    (show (compile provider [topicDescriptor "a" "get"] template).1
      = .ok ⟨1, ["ApiGatewayMethodAGet"], some "Release"⟩ by decide)
  obtain ⟨hstage, hrun⟩ := keys_bound_to_plan configured
  obtain ⟨deploymentId, fragment, -, hid, hfragment, hkept, -⟩ :=
    hrun _ _ _ _ (List.cons_ne_nil _ _) distinct unclaimed h
  obtain rfl : "Release" = deploymentId := Option.some.inj hid
  obtain ⟨found, hfound, wired⟩ := hstage (Api.ofProvider provider) "Release"
  obtain rfl : found = fragment := Except.ok.inj (hfound.symm.trans hfragment)
  obtain ⟨key, hkey, isKey⟩ := wired.key 1 "team" rfl
  obtain ⟨plan, hplan, isPlan⟩ := wired.plan (Or.inl rfl)
  obtain ⟨throttle, hthrottle, carried⟩ := isPlan.throttle rfl
  exact ⟨configured, distinct, unclaimed, _, key, plan, throttle, h,
    hkept _ _ hkey, isKey, hkept _ _ hplan, hthrottle, carried⟩

end GatewayStack
