import GatewayStack.Proofs.Frame
import GatewayStack.Proofs.References

/-!
# References to the API that a run creates

A run creates the API unless an existing one is configured. Where the API is
referred to, the configured id takes the place of the reference, and where its
root is referred to, the configured id of the root does. Nothing makes these two
settings go together. With an existing API and no root for it, whatever is put
directly under the root refers to an API that is not in the template
(`dangling_parent_a`), and this is the only way in which a reference of the
compiler's own can dangle (`api_references_resolve_iff`).

Which references are the compiler's own is said by leaving the others out.
`bare` blanks everything that is copied from the configuration into the
resources as it is. The resources that are generated then are the same ones,
with the same ids, and whatever they refer to is not copied.
-/

namespace GatewayStack

open LogicalId
open Json (RefersTo)

/-! ## The configuration without the values that are copied -/

def Target.bare : Target → Target
  | .kinesis target => .kinesis { target with stream := .literal "" }
  | .sqs target => .sqs { target with queue := .literal "" }
  | .s3 target => .s3 { target with bucket := .literal "" }
  | .sns target => .sns { target with topic := .literal "" }
  | .dynamodb target => .dynamodb { target with table := .literal "" }
  | .eventBridge target => .eventBridge { target with bus := .literal "" }

def Event.bare (event : Event) : Event :=
  { event with
    authorizerId := event.authorizerId.map fun _ => .null
    roleArn := event.roleArn.map fun _ => .null
    target := event.target.bare }

def Normalized.bare (normalized : Normalized) : Normalized :=
  { normalized with events := normalized.events.map Event.bare }

def GatewaySettings.bare (gateway : GatewaySettings) : GatewaySettings :=
  { gateway with
    restApiId := gateway.restApiId.map fun _ => .null
    rootResourceId := gateway.rootResourceId.map fun _ => .null
    resources := Fields.mapValues (fun _ => .null) gateway.resources
    resourcePolicy := gateway.resourcePolicy.map fun _ => [] }

def Provider.bare (provider : Provider) : Provider :=
  { provider with gateway := provider.gateway.bare }

@[simp] theorem Event.service_bare (event : Event) :
    event.bare.service = event.service := by
  unfold Event.service Event.bare
  cases event.target <;> rfl

theorem Event.silent_bare (event : Event) (id : String) :
    event.bare.Silent id := by
  refine ⟨fun value hvalue => ?_, fun value hvalue => ?_, ?_⟩
  · obtain ⟨_, -, rfl⟩ := Option.map_eq_some_iff.mp hvalue
    exact Json.not_refersTo_null
  · obtain ⟨_, -, rfl⟩ := Option.map_eq_some_iff.mp hvalue
    exact Json.not_refersTo_null
  · show ¬ RefersTo id event.target.bare.resourceName.toJson
    cases event.target <;> exact Json.not_refersTo_str ""

theorem Provider.restApiId_bare {provider : Provider} :
    provider.bare.gateway.restApiId = none ↔
      provider.gateway.restApiId = none :=
  Option.map_eq_none_iff

theorem Api.keys_existing (provider : Provider) :
    Fields.keys (Api.ofProvider provider).existing
    = FirstSeen.union
      [] ((Fields.keys provider.gateway.resources).map Path.strip) := by
  show Fields.keys (Fields.setAll [] _) = _
  rw [Fields.keys_setAll]
  refine congrArg (FirstSeen.union []) ?_
  show List.map _ (List.map _ _) = List.map _ (List.map _ _)
  rw [List.map_map, List.map_map]
  rfl

theorem Api.isExisting_bare (provider : Provider) (path : String) :
    (Api.ofProvider provider.bare).isExisting path
      = (Api.ofProvider provider).isExisting path := by
  have hkeys : Fields.keys provider.bare.gateway.resources
      = Fields.keys provider.gateway.resources :=
    Fields.keys_mapValues (fun _ => Json.null) provider.gateway.resources
  unfold Api.isExisting
  rw [Bool.eq_iff_iff, Fields.contains_iff, Fields.contains_iff,
    Api.keys_existing, Api.keys_existing, hkeys]

theorem Normalized.sharesRole_bare {normalized : Normalized}
    {service : Service} :
    (∃ event, normalized.bare.SharesRole service event) ↔
      ∃ event, normalized.SharesRole service event := by
  unfold Normalized.SharesRole
  refine ⟨?_, ?_⟩
  · rintro ⟨_, hmem, hservice, hrole⟩
    obtain ⟨event, hevent, rfl⟩ := List.mem_map.mp hmem
    exact ⟨event, hevent, event.service_bare ▸ hservice,
      Option.map_eq_none_iff.mp hrole⟩
  · rintro ⟨event, hmem, hservice, hrole⟩
    exact ⟨event.bare, List.mem_map_of_mem hmem,
      event.service_bare.trans hservice, Option.map_eq_none_iff.mpr hrole⟩

namespace Generated

variable {provider : Provider} {normalized : Normalized}
  {deploymentId id : String} {kind : Kind} {value : Json}

theorem exists_of_bare
    (h : Generated provider.bare normalized.bare deploymentId kind id value) :
    ∃ value, Generated provider normalized deploymentId kind id value := by
  cases h with
  | restApi created htype =>
      exact ⟨_, .restApi (Provider.restApiId_bare.mp created) htype⟩
  | resource mem proper initial missing =>
      obtain ⟨event, hevent, rfl⟩ := List.mem_map.mp mem
      exact ⟨_, .resource hevent proper initial
        (Api.isExisting_bare provider _ ▸ missing)⟩
  | preflight mem => exact ⟨_, .preflight mem⟩
  | role shares =>
      obtain ⟨event, hshares⟩ := Normalized.sharesRole_bare.mp ⟨_, shares⟩
      exact ⟨_, .role hshares⟩
  | method mem =>
      obtain ⟨event, hevent, rfl⟩ := List.mem_map.mp mem
      have hmethod : Generated provider normalized deploymentId
          .method (Method.id event) _ :=
        .method hevent
      exact ⟨_, hmethod⟩
  | apiKey hkeys found => exact ⟨_, .apiKey hkeys found⟩
  | usagePlan hsome => exact ⟨_, .usagePlan hsome⟩
  | usagePlanKey hkeys bound => exact ⟨_, .usagePlanKey hkeys bound⟩

theorem exists_bare
    (h : Generated provider normalized deploymentId kind id value) :
    ∃ value, Generated provider.bare normalized.bare deploymentId kind
      id value := by
  cases h with
  | restApi created htype =>
      exact ⟨_, .restApi (Provider.restApiId_bare.mpr created) htype⟩
  | resource mem proper initial missing =>
      exact ⟨_, .resource (List.mem_map_of_mem mem) proper initial
        ((Api.isExisting_bare provider _).trans missing)⟩
  | preflight mem => exact ⟨_, .preflight mem⟩
  | role shares =>
      obtain ⟨event, hshares⟩ := Normalized.sharesRole_bare.mpr ⟨_, shares⟩
      exact ⟨_, .role hshares⟩
  | @method event mem =>
      have hmethod : Generated provider.bare normalized.bare
          deploymentId .method
          (Method.id event.bare) _ := .method (List.mem_map_of_mem mem)
      exact ⟨_, hmethod⟩
  | apiKey hkeys found => exact ⟨_, .apiKey hkeys found⟩
  | usagePlan hsome => exact ⟨_, .usagePlan hsome⟩
  | usagePlanKey hkeys bound => exact ⟨_, .usagePlanKey hkeys bound⟩

end Generated

/-- Leaving out what is copied changes neither the resources nor their ids. -/
theorem generates_bare_iff {provider : Provider} {normalized : Normalized}
    {deploymentId id : String} :
    Generates provider.bare normalized.bare deploymentId id ↔
      Generates provider normalized deploymentId id := by
  refine ⟨fun ⟨kind, value, h⟩ => ?_, fun ⟨kind, value, h⟩ => ?_⟩
  · obtain ⟨value, h⟩ := h.exists_of_bare
    exact ⟨kind, value, h⟩
  · obtain ⟨value, h⟩ := h.exists_bare
    exact ⟨kind, value, h⟩

/-! ## The references -/

/-- A method, or a resource that is generated, is directly under the
root of the API. -/
def UsesRoot (api : Api) (events : List Event) : Prop :=
  ∃ event ∈ events, event.path = "" ∨ ∃ path : String,
    path.toList ∈ Path.prefixes event.path.toList ∧
      Path.parent path.toList = [] ∧
      api.isExisting path = false

/-- Something that a run generates for an empty template refers to the API by
its logical id, and the reference is not copied from the configuration. -/
inductive RefersToApi (provider : Provider) (normalized : Normalized) : Prop
  | resource {kind : Kind} {id : String} {value : Json}
      (generated : Generated provider.bare normalized.bare
        (LogicalId.deployment provider.token) kind id value)
      (refers : RefersTo LogicalId.restApi value)
  | deployment {methodIds : List String}
      (refers : RefersTo LogicalId.restApi
        (Deployment.resource provider.bare (Api.ofProvider provider.bare)
          methodIds))
  | output
      (refers : RefersTo LogicalId.restApi
        (Deployment.output provider.bare (Api.ofProvider provider.bare)))

theorem LogicalId.OfKind.ne_restApi {kind : Kind} {id : String}
    (h : OfKind kind id) (other : kind ≠ .restApi) :
    id ≠ LogicalId.restApi := by
  rintro rfl
  exact other (h.unique .restApi)

namespace Api

variable {provider : Provider}

theorem refersTo_restApiId_bare :
    RefersTo LogicalId.restApi (ofProvider provider.bare).restApiId ↔
      provider.gateway.restApiId = none := by
  show RefersTo LogicalId.restApi
    ((provider.gateway.restApiId.map fun _ => .null).getD _) ↔ _
  cases provider.gateway.restApiId <;> simp

theorem refersTo_resourceId_bare {path : String} :
    RefersTo LogicalId.restApi ((ofProvider provider.bare).resourceId path) ↔
      path = "" ∧ provider.gateway.rootResourceId = none := by
  unfold resourceId
  split
  · next hroot =>
      rw [and_iff_right hroot]
      show RefersTo LogicalId.restApi
        ((provider.gateway.rootResourceId.map fun _ => .null).getD _) ↔ _
      cases provider.gateway.rootResourceId <;> simp
  · next hpath =>
      refine iff_of_false ?_ fun h => hpath h.1
      split
      · next existing hexisting =>
          have hnull : existing = .null := by
            rcases Fields.mem_setAll (Fields.mem_of_get? hexisting) with hmem |
              hmem
            · cases hmem
            · obtain ⟨_, hentry, heq⟩ := List.mem_map.mp hmem
              obtain ⟨_, -, rfl⟩ := List.mem_map.mp hentry
              exact (Prod.mk.inj heq).2.symm
          rw [hnull]
          exact Json.not_refersTo_null
      · rw [Json.refersTo_ref]
        exact (OfKind.resource path).ne_restApi (by decide)

end Api

theorem Normalized.exists_event_of_preflight {proxies : List ServiceProxy}
    {path : String} {policy : CorsPolicy}
    (h : (path, policy) ∈ (ofProxies proxies).preflights) :
    ∃ event ∈ (ofProxies proxies).events, event.path = path := by
  have hkey : path ∈ Fields.keys ((proxies.map Event.ofProxy).foldl
      addPreflight []) :=
    Fields.mem_keys_of_mem h
  obtain ⟨event, hevent, -, hpath⟩ :=
    (mem_keys_foldl_addPreflight.mp hkey).resolve_left List.not_mem_nil
  exact ⟨event, hevent, hpath⟩

section

variable {provider : Provider} {proxies : List ServiceProxy}

theorem Generated.refersTo_restApi {deploymentId id : String} {kind : Kind}
    {value : Json}
    (h : Generated provider.bare (Normalized.ofProxies proxies).bare
      deploymentId kind id value) (refers : RefersTo LogicalId.restApi value) :
    provider.gateway.restApiId = none ∨ provider.gateway.rootResourceId = none ∧
      UsesRoot (Api.ofProvider provider)
        (Normalized.ofProxies proxies).events := by
  cases h with
  | restApi created => exact Or.inl (Provider.restApiId_bare.mp created)
  | resource mem proper initial missing =>
      obtain ⟨event, hevent, rfl⟩ := List.mem_map.mp mem
      rcases PathTree.refersTo_resource.mp refers with refers | refers
      · obtain ⟨hparent, hroot⟩ := Api.refersTo_resourceId_bare.mp refers
        have hparent := String.ofList_eq_empty_iff.mp hparent
        exact Or.inr ⟨hroot, event, hevent, Or.inr
          ⟨_, initial, hparent, Api.isExisting_bare provider _ ▸ missing⟩⟩
      · exact Or.inl (Api.refersTo_restApiId_bare.mp refers)
  | preflight mem =>
      rcases Preflight.refersTo_resource.mp refers with refers | refers
      · obtain ⟨rfl, hroot⟩ := Api.refersTo_resourceId_bare.mp refers
        obtain ⟨event, hevent, hpath⟩ :=
          Normalized.exists_event_of_preflight mem
        exact Or.inr ⟨hroot, event, hevent, Or.inl hpath⟩
      · exact Or.inl (Api.refersTo_restApiId_bare.mp refers)
  | role shares =>
      refine absurd refers (Permission.not_refersTo_role
        fun target htarget => ?_)
      obtain ⟨_, ⟨hmem, -⟩, rfl⟩ := Backend.mem_sharedTargets.mp htarget
      obtain ⟨event, -, rfl⟩ := List.mem_map.mp hmem
      exact (event.silent_bare LogicalId.restApi).target
  | method mem =>
      obtain ⟨event, hevent, rfl⟩ := List.mem_map.mp mem
      have hrole : LogicalId.role event.bare.service ≠ LogicalId.restApi :=
        (OfKind.role _).ne_restApi (by decide)
      rcases (Method.refersTo_resource (event.silent_bare _) hrole).mp
        refers with refers | refers
      · obtain ⟨hpath, hroot⟩ := Api.refersTo_resourceId_bare.mp refers
        exact Or.inr ⟨hroot, event, hevent, Or.inl hpath⟩
      · exact Or.inl (Api.refersTo_restApiId_bare.mp refers)
  | apiKey =>
      exact Or.inl (Api.refersTo_restApiId_bare.mp
        (ApiKeys.refersTo_keyResource.mp refers))
  | usagePlan =>
      exact Or.inl (Api.refersTo_restApiId_bare.mp
        (ApiKeys.refersTo_planResource.mp refers))
  | usagePlanKey =>
      rcases ApiKeys.refersTo_bindingResource.mp refers with heq | heq
      · exact absurd heq ((OfKind.apiKey _).ne_restApi (by decide))
      · exact absurd heq (OfKind.usagePlan.ne_restApi (by decide))

/-- The own references to the API are those of a run that creates it, and those
to the root of an API whose root is not known. -/
theorem refersToApi_iff : RefersToApi provider (Normalized.ofProxies proxies) ↔
    provider.gateway.restApiId = none ∨ provider.gateway.rootResourceId = none ∧
      UsesRoot (Api.ofProvider provider)
        (Normalized.ofProxies proxies).events := by
  refine ⟨fun h => ?_, ?_⟩
  · cases h with
    | resource generated refers => exact generated.refersTo_restApi refers
    | deployment refers =>
        exact Or.inl (Api.refersTo_restApiId_bare.mp
          (Deployment.refersTo_resource.mp refers))
    | output refers =>
        rcases Deployment.refersTo_output.mp refers with refers | heq | heq
        · exact Or.inl (Api.refersTo_restApiId_bare.mp refers)
        · exact absurd heq (by decide)
        · exact absurd heq (by decide)
  · rintro (created | ⟨hroot, event, hevent, huses⟩)
    · exact .output (Deployment.refersTo_output.mpr
        (Or.inl (Api.refersTo_restApiId_bare.mpr created)))
    by_cases hpath : event.path = ""
    · have hrole : LogicalId.role event.bare.service ≠ LogicalId.restApi :=
        (OfKind.role _).ne_restApi (by decide)
      exact .resource (.method (List.mem_map_of_mem hevent))
        ((Method.refersTo_resource (event.silent_bare _) hrole).mpr
          (Or.inl (Api.refersTo_resourceId_bare.mpr ⟨hpath, hroot⟩)))
    · obtain ⟨path, hinitial, hparent, hmissing⟩ := huses.resolve_left hpath
      exact .resource (.resource (List.mem_map_of_mem hevent) hpath hinitial
        ((Api.isExisting_bare provider path).trans hmissing))
        (PathTree.refersTo_resource.mpr
          (Or.inl (Api.refersTo_resourceId_bare.mpr
            ⟨String.ofList_eq_empty_iff.mpr hparent, hroot⟩)))

end

/-! ## The resources of a run into an empty template -/

theorem RestApi.exists_endpointType {provider : Provider} {fragment : Fragment}
    (h : RestApi.stage provider = .ok fragment)
    (created : provider.gateway.restApiId = none) :
    ∃ type, RestApi.endpointType provider = .ok type := by
  unfold RestApi.stage Provider.usesExistingApi at h
  rw [created] at h
  obtain ⟨type, htype, -⟩ := map_eq_ok.mp h
  exact ⟨type, htype⟩

namespace Compile

variable {provider : Provider} {normalized : Normalized} {compiled : Template}
  {report : Report}

theorem mem_keys_events_empty
    (h : events provider normalized Template.empty = .ok (report, compiled))
    (id : String) : id ∈ Fields.keys compiled.resources ↔
      Generates provider normalized (LogicalId.deployment provider.token) id ∨
        id = LogicalId.deployment provider.token := by
  obtain ⟨restApi, keys, hapi, hkeys, -, rfl⟩ := events_eq_ok h
  have staged : Kinded EarlyKind
      (mergeAll Template.empty
        (stages provider normalized restApi)).resources :=
    kinded_mergeAll Kinded.nil (kinded_stages hapi)
  have hwired : (wired provider normalized Template.empty restApi).2
      = LogicalId.deployment provider.token :=
    congrArg Prod.snd (deployment_stage_of_kinded staged)
  rw [mem_keys_mergeAll, exists_mem_keys_iff hapi hkeys, hwired]
  exact or_iff_right List.not_mem_nil

theorem restApi_mem_keys_iff
    (h : events provider normalized Template.empty = .ok (report, compiled)) :
    LogicalId.restApi ∈ Fields.keys compiled.resources ↔
      provider.gateway.restApiId = none := by
  rw [mem_keys_events_empty h]
  refine ⟨?_, fun created => ?_⟩
  · rintro (⟨kind, value, generated⟩ | heq)
    · obtain rfl := generated.ofKind.unique .restApi
      cases generated with
      | restApi created => exact created
    · exact absurd heq.symm ((OfKind.deployment _).ne_restApi (by decide))
  · obtain ⟨restApi, -, hapi, -⟩ := events_eq_ok h
    obtain ⟨type, htype⟩ := RestApi.exists_endpointType hapi created
    exact Or.inl ⟨_, _, .restApi created htype⟩

end Compile

/-- What a run writes into an empty template refers to the API of the template,
by references that are not copied from the configuration, only where the API is
there, unless an existing API is configured, its root is not, and something is
put directly under the root. -/
theorem api_references_resolve_iff {provider : Provider}
    {descriptors : List Json} {proxies : List ServiceProxy} {report : Report}
    {compiled : Template} (hparse : parse descriptors = .ok proxies)
    (h : compile provider descriptors Template.empty = (.ok report, compiled)) :
    let normalized := Normalized.ofProxies proxies
    (∀ id, id ∈ Fields.keys compiled.resources ↔ descriptors ≠ [] ∧
      (Generates provider.bare normalized.bare
        (LogicalId.deployment provider.token) id ∨
        id = LogicalId.deployment provider.token)) ∧
    (LogicalId.restApi ∈ Fields.keys compiled.resources ↔
      descriptors ≠ [] ∧ provider.gateway.restApiId = none) ∧
    ((descriptors ≠ [] → RefersToApi provider normalized →
      LogicalId.restApi ∈ Fields.keys compiled.resources) ↔
      ¬ (provider.gateway.restApiId ≠ none ∧
        provider.gateway.rootResourceId = none ∧
        UsesRoot (Api.ofProvider provider) normalized.events)) := by
  intro normalized
  by_cases empty : descriptors = []
  · subst empty
    obtain ⟨-, rfl⟩ := Prod.mk.inj h
    obtain rfl : [] = proxies := Except.ok.inj hparse
    refine ⟨fun id => ?_, ?_,
      iff_of_true (fun nonempty => absurd rfl nonempty) ?_⟩
    · exact iff_of_false List.not_mem_nil fun h => h.1 rfl
    · exact iff_of_false List.not_mem_nil fun h => h.1 rfl
    · rintro ⟨-, -, event, hevent, -⟩
      cases hevent
  · obtain ⟨_, hparse', hevents⟩ := Compile.compile_eq_ok empty h
    obtain rfl := Except.ok.inj (hparse.symm.trans hparse')
    have hcreated := Compile.restApi_mem_keys_iff hevents
    refine ⟨fun id => ?_, by rw [hcreated, and_iff_right empty], ?_⟩
    · rw [Compile.mem_keys_events_empty hevents, generates_bare_iff,
        and_iff_right empty]
    · rw [hcreated, refersToApi_iff]
      constructor
      · rintro resolves ⟨configured, dangling⟩
        exact configured (resolves empty (Or.inr dangling))
      · rintro resolved - (created | dangling)
        · exact created
        · exact not_not.mp fun configured => resolved ⟨configured, dangling⟩

/-- A configuration with an existing API and its root. -/
theorem api_references_resolve_root :
    ∃ provider proxies report compiled,
      provider.gateway.restApiId ≠ none ∧
      provider.gateway.rootResourceId ≠ none ∧
      parse [topicDescriptor "a" "get"] = .ok proxies ∧
      compile provider [topicDescriptor "a" "get"] Template.empty
        = (.ok report, compiled) ∧
      ¬ RefersToApi provider (Normalized.ofProxies proxies) := by
  let provider : Provider := { Provider.ofStage "shop" "dev" "1" with
    gateway := { GatewaySettings.empty with
      restApiId := some "abc"
      rootResourceId := some "root" } }
  have hreport : (compile provider [topicDescriptor "a" "get"] Template.empty).1
      = .ok ⟨1, ["ApiGatewayMethodAGet"], some "ApiGatewayDeployment1"⟩ := by
    decide
  have h := compile_eq_of_report hreport
  have nonempty : [topicDescriptor "a" "get"] ≠ [] := List.cons_ne_nil _ _
  obtain ⟨proxies, hparse, -⟩ := Compile.compile_eq_ok nonempty h
  have hid : provider.gateway.restApiId ≠ none := Option.some_ne_none _
  have hroot : provider.gateway.rootResourceId ≠ none := Option.some_ne_none _
  obtain ⟨-, hcreated, hresolves⟩ := api_references_resolve_iff hparse h
  refine ⟨provider, proxies, _, _, hid, hroot, hparse, h, fun refers => ?_⟩
  have resolved := hresolves.mpr (fun missing => hroot missing.2.1) nonempty
  exact hid (hcreated.mp (resolved refers)).2

/-- An existing API without its root, and a path directly under the root. -/
theorem dangling_parent_a :
    let provider : Provider := { Provider.ofStage "shop" "dev" "1" with
      gateway := { GatewaySettings.empty with restApiId := some "abc" } }
    let run := compile provider [topicDescriptor "a" "get"] Template.empty
    run.1 = .ok ⟨1, ["ApiGatewayMethodAGet"], some "ApiGatewayDeployment1"⟩ ∧
      (∃ resource, run.2.resource? "ApiGatewayResourceA" = some resource ∧
        RefersTo "ApiGatewayRestApi" resource) ∧
      "ApiGatewayRestApi" ∉ Fields.keys run.2.resources := by
  intro provider run
  refine ⟨by decide, ⟨PathTree.resource (Api.ofProvider provider) "a",
    by decide, ?_⟩, by decide⟩
  exact PathTree.refersTo_resource.mpr (Or.inl (.getAtt "RootResourceId"))

end GatewayStack
