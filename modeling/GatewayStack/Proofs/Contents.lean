import GatewayStack.Proofs.ApiReferences
import GatewayStack.Proofs.ByteOrder
import GatewayStack.Proofs.CorsPolicies
import GatewayStack.Proofs.Recompile
import GatewayStack.Proofs.Refusals

/-!
# Everything that a compilation makes, in order

The document of a compilation into an empty template has the ids that its stages
write, one stage after the other, each id where it is written first. For every
stage these ids are read off the configuration, and what the document has is
their concatenation without the repetitions (`Provider.writtenIds`).

A stage leaves out what it writes twice itself, and the template leaves out what
an earlier stage wrote. That the two come to one is `FirstSeen.union_union`:
adding one list to another in first-seen order is associative.
-/

namespace GatewayStack

open LogicalId

/-! ## The ids that a configuration asks for -/

namespace Provider

/-- The API, unless there is one to attach to. -/
def apiIds (provider : Provider) : List String :=
  if provider.gateway.restApiId.isSome then [] else [LogicalId.restApi]

/-- The paths that need a resource and have none. -/
def treeIds (provider : Provider) (events : List Event) : List String :=
  ((PathTree.paths events).filter fun path =>
    path ∉ (Fields.keys provider.gateway.resources).map Path.strip).map
    LogicalId.resource

/-- How many API keys are configured. -/
def keyCount (provider : Provider) : Nat :=
  match provider.apiKeys with
  | some (.arr keys) => keys.length
  | _ => 0

/-- The API keys, counted from one, and with a plan the plan and a binding
for each key. -/
def keyIds (provider : Provider) : List String :=
  (List.range' 1 provider.keyCount).map LogicalId.apiKey ++
    if provider.apiKeys.isSome ∨ provider.usagePlan.isSome then
      LogicalId.usagePlan :: (List.range' 1 provider.keyCount).map
        LogicalId.usagePlanKey
    else []

end Provider

/-- The role of a service, if one of its proxies has none of its own, and its
methods in the order in which the proxies are configured. -/
def Service.writtenIds (service : Service) (proxies : List ServiceProxy) :
    List String :=
  let own := proxies.filter fun proxy => proxy.service = service
  (if ∃ proxy ∈ own, proxy.http.roleArn = none then [role service] else []) ++
    own.map fun proxy => LogicalId.method proxy.path proxy.http.verb

/-- The ids in the order in which a compilation writes them, with their
repetitions. The paths are those that get a preflight. -/
def Provider.writtenIds (provider : Provider) (proxies : List ServiceProxy)
    (paths : List String) : List String :=
  provider.apiIds ++ provider.treeIds (proxies.map Event.ofProxy) ++
    paths.map (fun path => LogicalId.method path .options) ++
    Service.all.flatMap (fun service => service.writtenIds proxies) ++
    [LogicalId.deployment provider.token] ++ provider.keyIds

theorem Normalized.eventsFor_ofProxies (proxies : List ServiceProxy)
    (service : Service) :
    (ofProxies proxies).eventsFor service
      = (proxies.filter fun proxy => proxy.service = service).map
        Event.ofProxy := by
  unfold eventsFor ofProxies
  rw [List.filter_map]
  rfl

/-! ## The ids that the stages write -/

theorem RestApi.keys_stage {provider : Provider} {fragment : Fragment}
    (h : RestApi.stage provider = .ok fragment) :
    Fields.keys fragment.resources = FirstSeen.distinct provider.apiIds := by
  unfold RestApi.stage Provider.usesExistingApi at h
  unfold Provider.apiIds
  split at h
  · next hexists =>
      rw [if_pos hexists, ← Except.ok.inj h]
      rfl
  · next hcreated =>
      obtain ⟨type, -, rfl⟩ := map_eq_ok.mp h
      rw [if_neg hcreated]
      rfl

theorem Api.isExisting_iff (provider : Provider) (path : String) :
    (Api.ofProvider provider).isExisting path = true ↔
      path ∈ (Fields.keys provider.gateway.resources).map Path.strip := by
  unfold Api.isExisting
  rw [Fields.contains_iff, Api.keys_existing, FirstSeen.mem_union]
  simp

theorem PathTree.keys_stage (provider : Provider) (events : List Event) :
    Fields.keys (PathTree.stage (Api.ofProvider provider) events).resources
      = FirstSeen.distinct (provider.treeIds events) := by
  have hneeded : ((paths events).filter fun path =>
      !(Api.ofProvider provider).isExisting path)
        = (paths events).filter fun path =>
            path ∉ (Fields.keys provider.gateway.resources).map Path.strip := by
    refine List.filter_congr fun path _ => ?_
    rw [Bool.eq_iff_iff, Bool.not_eq_true', ← Bool.not_eq_true,
      Api.isExisting_iff, decide_eq_true_iff]
  show Fields.keys (Fields.ofEntries _) = _
  rw [Fields.keys_ofEntries, hneeded, Provider.treeIds,
    Fields.keys, List.map_map]
  rfl

theorem Preflight.keys_stage (api : Api) (preflights : Fields CorsPolicy) :
    Fields.keys (Preflight.stage api preflights).resources
      = FirstSeen.distinct
          ((Fields.keys preflights).map fun path =>
            LogicalId.method path .options) := by
  unfold Preflight.stage
  rw [Fragment.resources_addMethods]
  show Fields.keys (Fields.ofEntries _) = _
  rw [Fields.keys_ofEntries, Fields.keys, Fields.keys,
    List.map_map, List.map_map]
  rfl

theorem Backend.sharedTargets_eq_nil_iff {events : List Event} :
    sharedTargets events = [] ↔ ¬ ∃ event ∈ events, event.roleArn = none := by
  simp [sharedTargets, Option.isNone_iff_eq_none]

theorem Backend.keys_roleFragment (service : Service) (events : List Event) :
    Fields.keys (roleFragment service events).resources
      = if ∃ event ∈ events, event.roleArn = none then
        [role service] else [] := by
  unfold roleFragment
  cases htargets : sharedTargets events with
  | nil =>
      rw [if_neg (sharedTargets_eq_nil_iff.mp htargets)]
      rfl
  | cons target rest =>
      have hshared : ∃ event ∈ events, event.roleArn = none := by
        by_contra hnone
        rw [sharedTargets_eq_nil_iff.mpr hnone] at htargets
        cases htargets
      rw [if_pos hshared]
      rfl

theorem Backend.keys_stage (api : Api) (proxies : List ServiceProxy)
    (service : Service) :
    Fields.keys (Backend.stage api (Normalized.ofProxies proxies)
        service).resources
      = FirstSeen.distinct (service.writtenIds proxies) := by
  have hmethods (events : List Event) :
      Fields.keys (methodFragment api events).resources
        = FirstSeen.distinct (events.map Method.id) := by
    unfold methodFragment
    rw [Fragment.resources_addMethods]
    show Fields.keys (Fields.ofEntries _) = _
    rw [Fields.keys_ofEntries, Fields.keys, List.map_map]
    rfl
  have hrole (own : List ServiceProxy) :
      (∃ event ∈ own.map Event.ofProxy, event.roleArn = none) ↔
        ∃ proxy ∈ own, proxy.http.roleArn = none := by
    simp only [List.mem_map, exists_exists_and_eq_and]
    rfl
  show Fields.keys (Fields.setAll _ _) = _
  rw [Fields.keys_setAll, hmethods, keys_roleFragment,
    Normalized.eventsFor_ofProxies, FirstSeen.distinct, FirstSeen.union_union,
    Service.writtenIds, FirstSeen.distinct, FirstSeen.union_append,
    List.map_map, if_congr (hrole _) rfl rfl]
  split <;> rfl

namespace ApiKeys

theorem keys_keysFrom (provider : Provider) (api : Api)
    (deploymentId : String) (n : Nat) (names : List String) :
    Fields.keys (keysFrom provider api deploymentId n names)
      = (List.range' n names.length).map LogicalId.apiKey := by
  induction names generalizing n with
  | nil => rfl
  | cons name rest ih =>
      rw [keysFrom, Fields.keys_cons, ih]
      rfl

theorem keys_bindingsFrom (n count : Nat) : Fields.keys (bindingsFrom n count)
    = (List.range' n count).map LogicalId.usagePlanKey := by
  induction count generalizing n with
  | zero => rfl
  | succ count ih =>
      rw [bindingsFrom, Fields.keys_cons, ih]
      rfl

theorem length_names {provider : Provider} {names : List String}
    (h : ApiKeys.names provider.apiKeys = .ok names) :
    names.length = provider.keyCount := by
  unfold Provider.keyCount
  rcases names_eq_ok h with ⟨hnone, rfl⟩ | hgiven
  · rw [hnone]
    rfl
  · rw [hgiven]
    exact (List.length_map _).symm

/-- There is a plan, for the one reason or the other. -/
theorem plan_iff {provider : Provider} :
    ¬ (provider.apiKeys.isNone ∧ provider.usagePlan.isNone) ↔
    provider.apiKeys.isSome ∨ provider.usagePlan.isSome := by
  cases provider.apiKeys <;> cases provider.usagePlan <;> simp

/-- The entries of the stage, as they are set one after the other. -/
def entries (provider : Provider) (api : Api) (deploymentId : String)
    (names : List String) : Fields Json :=
  keysFrom provider api deploymentId 1 names ++
    if provider.apiKeys.isNone ∧ provider.usagePlan.isNone then []
    else (LogicalId.usagePlan, planResource provider api deploymentId)
      :: bindingsFrom 1 names.length

theorem keys_entries {provider : Provider} {names : List String}
    (h : ApiKeys.names provider.apiKeys = .ok names) (api : Api)
    (deploymentId : String) :
    Fields.keys (entries provider api deploymentId names)
      = provider.keyIds := by
  unfold entries
  rw [Fields.keys, List.map_append, Provider.keyIds, ← length_names h]
  refine congrArg₂ (· ++ ·) (keys_keysFrom provider api deploymentId 1 names) ?_
  by_cases hnone : provider.apiKeys.isNone ∧ provider.usagePlan.isNone
  · rw [if_pos hnone, if_neg fun hsome => plan_iff.mpr hsome hnone]
    rfl
  · rw [if_neg hnone, if_pos (plan_iff.mp hnone)]
    exact congrArg (_ :: ·) (keys_bindingsFrom 1 names.length)

theorem keys_stage {provider : Provider} {api : Api} {deploymentId : String}
    {fragment : Fragment}
    (h : ApiKeys.stage provider api deploymentId = .ok fragment) :
    Fields.keys fragment.resources = FirstSeen.distinct provider.keyIds := by
  obtain ⟨names, hnames, rfl⟩ := stage_eq_ok h
  show Fields.keys (Fields.ofEntries (entries provider api deploymentId names))
    = _
  rw [Fields.keys_ofEntries, keys_entries hnames]

end ApiKeys

/-! ## The document -/

namespace Compile

variable {provider : Provider} {proxies : List ServiceProxy}

/-- The ids of the stages before the deployment, stage by stage. -/
def stagedIds (provider : Provider) (proxies : List ServiceProxy) :
    List (List String) :=
  provider.apiIds :: provider.treeIds (proxies.map Event.ofProxy) ::
    (Fields.keys (Normalized.ofProxies proxies).preflights).map
      (fun path => LogicalId.method path .options) ::
    Service.all.map fun service => service.writtenIds proxies

theorem keys_stages {restApi : Fragment}
    (h : RestApi.stage provider = .ok restApi) :
    ((stages provider (Normalized.ofProxies proxies) restApi).map
      fun fragment =>
        Fields.keys fragment.resources)
      = (stagedIds provider proxies).map FirstSeen.distinct := by
  unfold stages stagedIds
  simp only [List.map_cons, List.map_map, RestApi.keys_stage h,
    PathTree.keys_stage, Preflight.keys_stage]
  refine congrArg (_ :: _ :: _ :: ·) (List.map_congr_left fun service _ => ?_)
  exact Backend.keys_stage _ proxies service

theorem writtenIds_eq :
    provider.writtenIds proxies
        (Fields.keys (Normalized.ofProxies proxies).preflights)
      = (stagedIds provider proxies ++
          [[LogicalId.deployment provider.token],
            provider.keyIds]).flatten := by
  unfold Provider.writtenIds stagedIds
  simp only [List.flatten_append, List.flatten_cons, List.flatten_nil,
    List.append_nil, List.append_assoc, List.flatMap_def]

theorem keys_events_empty {report : Report} {compiled : Template}
    (h : events provider (Normalized.ofProxies proxies) Template.empty
      = .ok (report, compiled)) :
    Fields.keys compiled.resources = (provider.writtenIds proxies
      (Fields.keys (Normalized.ofProxies proxies).preflights)).eraseDups := by
  obtain ⟨restApi, keys, hapi, hkeys, -, rfl⟩ := events_empty_eq_ok h
  have hlate : ∀ methodIds,
      [Deployment.creation provider (Api.ofProvider provider) methodIds,
        keys].map (fun fragment => Fields.keys fragment.resources)
          = [[LogicalId.deployment provider.token], provider.keyIds].map
            FirstSeen.distinct := by
    intro methodIds
    rw [List.map_cons, List.map_cons, ApiKeys.keys_stage hkeys]
    rfl
  rw [keys_mergeAll, List.flatMap_def, List.map_append, keys_stages hapi, hlate,
    ← List.map_append, ← List.flatMap_def, FirstSeen.union_flatMap_distinct,
    ← writtenIds_eq, ← FirstSeen.distinct_eq_eraseDups]
  rfl

end Compile

/-- The ids of the methods, as routes that are claimed and as what they
are made from. -/
theorem Normalized.ids_routes (normalized : Normalized) :
    normalized.routes.map Route.id
    = (Fields.keys normalized.preflights).map (fun path =>
      LogicalId.method path .options) ++ Service.all.flatMap (fun service =>
        (normalized.eventsFor service).map fun event =>
        LogicalId.method event.path event.verb) := by
  unfold Normalized.routes
  rw [List.map_append, List.map_map, List.map_flatMap]
  simp only [List.map_map]
  rfl

/-- What a run makes of an empty template, in order. -/
theorem Compile.outputs_events_empty {provider : Provider}
    {normalized : Normalized} {report : Report} {compiled : Template}
    (h : events provider normalized Template.empty = .ok (report, compiled)) :
    Fields.keys compiled.outputs = ["ServiceEndpoint"] := by
  obtain ⟨restApi, keys, hapi, hkeys, -, rfl⟩ := events_eq_ok h
  rw [outputs_run hapi hkeys, wired_empty hapi]
  rfl

theorem Compile.compile_of_events_error {provider : Provider}
    {descriptors : List Json} {proxies : List ServiceProxy}
    {template : Template} {reason : Misconfiguration}
    (nonempty : descriptors ≠ []) (hparse : parse descriptors = .ok proxies)
    (h : events provider (Normalized.ofProxies proxies) template
      = .error reason) :
    compile provider descriptors template
      = (.error (.misconfigured reason), template) := by
  have hrun : Compile.descriptors provider descriptors template
      = .error (.misconfigured reason) := by
    rw [Compile.descriptors, hparse]
    show (events provider _ template).mapError _ = _
    rw [h]
    rfl
  rw [compile_eq nonempty, hrun]

/-- The paths with CORS are those that get a preflight, in the order
of their bytes. -/
theorem Normalized.keys_preflights (proxies : List ServiceProxy) :
    (Fields.keys (ofProxies proxies).preflights).Pairwise
        (fun a b => ByteOrder.bytes a < ByteOrder.bytes b) ∧
      ∀ path, path ∈ Fields.keys (ofProxies proxies).preflights ↔
        ∃ proxy ∈ proxies, proxy.http.cors.isSome ∧ proxy.path = path := by
  have sorted : (Fields.keys (ofProxies proxies).preflights).Pairwise (· < ·) :=
    pairwise_keys_foldl_addPreflight List.Pairwise.nil
  refine ⟨sorted.imp fun hlt => ByteOrder.lt_iff_bytes_lt.mp hlt,
    fun path => ?_⟩
  rw [(keys_preflights_perm proxies).mem_iff, mem_corsPaths]

/-- A compilation into an empty template is refused for the provider, or it
makes just what is configured. Every event is compiled once. The methods are the
preflights, in the order of the bytes of their paths, and then those of the
events, service by service and as they are configured. The resources are the ids
of all that is configured, in the order of the stages and each where it comes
first, and the one output is the endpoint. -/
theorem compile_contents {provider : Provider} {descriptors : List Json}
    {proxies : List ServiceProxy} (nonempty : descriptors ≠ [])
    (hparse : parse descriptors = .ok proxies) :
    let normalized := Normalized.ofProxies proxies
    (∃ reason, Refused provider descriptors (.misconfigured reason) ∧
      compile provider descriptors Template.empty
        = (.error (.misconfigured reason), Template.empty)) ∨
    ∃ report compiled paths,
      compile provider descriptors Template.empty = (.ok report, compiled) ∧
      report.events = descriptors.length ∧
      (Service.all.flatMap normalized.eventsFor).Perm
        (proxies.map Event.ofProxy) ∧
      paths.Pairwise (fun a b => ByteOrder.bytes a < ByteOrder.bytes b) ∧
      (∀ path, path ∈ paths ↔ ∃ proxy ∈ proxies, proxy.http.cors.isSome ∧
        proxy.path = path) ∧
      report.methodIds = paths.map (fun path =>
        LogicalId.method path .options) ++ Service.all.flatMap (fun service =>
          (proxies.filter fun proxy => proxy.service = service).map fun proxy =>
            LogicalId.method proxy.path proxy.http.verb) ∧
      Fields.keys compiled.resources
        = (provider.writtenIds proxies paths).eraseDups ∧
      Fields.keys compiled.outputs = ["ServiceEndpoint"] := by
  intro normalized
  cases hevents : Compile.events provider normalized Template.empty with
  | error reason =>
      have sound : Sound descriptors := ⟨nonempty, proxies, hparse⟩
      have refused := (refused_misconfigured_iff sound).mpr
        (Compile.events_eq_error_iff.mp hevents)
      exact Or.inl ⟨reason, refused,
        Compile.compile_of_events_error nonempty hparse hevents⟩
  | ok result =>
      obtain ⟨report, compiled⟩ := result
      obtain ⟨sorted, hpaths⟩ := Normalized.keys_preflights proxies
      have hrun := Compile.compile_of_events nonempty hparse hevents
      have hids := (Compile.methods_eq hparse hrun).1
      rw [Normalized.ids_routes] at hids
      simp only [Normalized.eventsFor_ofProxies, List.map_map] at hids
      have distinct := nodup_routes hparse
      rw [← Normalized.map_route_events] at distinct
      have hcount : report.events = descriptors.length := by
        obtain ⟨restApi, keys, -, -, rfl, -⟩ := Compile.events_eq_ok hevents
        exact (List.length_map _).trans (length_of_parse hparse)
      exact Or.inr ⟨report, compiled, _, hrun, hcount,
        Normalized.flatMap_eventsFor_perm distinct, sorted, hpaths, hids,
        Compile.keys_events_empty hevents, Compile.outputs_events_empty hevents⟩

/-- A proxy in front of a topic that asks for CORS. -/
def corsDescriptor (path : String) : Json :=
  .obj [("sns", .obj [("path", path), ("method", "get"), ("topicName", "topic"),
    ("cors", .bool true)])]

/-- Two services, a path above another that has no method, CORS for two of the
paths, and an API key. -/
theorem contents_of_two_services :
    let provider :=
      { Provider.ofStage "shop" "dev" "1" with apiKeys := some (.arr ["key"]) }
    let descriptors := [corsDescriptor "b/c", corsDescriptor "a",
      streamDescriptor "d" "PutRecord"]
    ∃ proxies report compiled paths, descriptors ≠ [] ∧
      parse descriptors = .ok proxies ∧
      compile provider descriptors Template.empty = (.ok report, compiled) ∧
      report.events = 3 ∧
      Fields.keys compiled.resources
        = (provider.writtenIds proxies paths).eraseDups ∧
      Fields.keys compiled.resources
        = ["ApiGatewayRestApi", "ApiGatewayResourceB", "ApiGatewayResourceA",
          "ApiGatewayResourceD", "ApiGatewayResourceBC",
          "ApiGatewayMethodAOptions", "ApiGatewayMethodBCOptions",
          "ApigatewayToKinesisRole", "ApiGatewayMethodDPost",
          "ApigatewayToSnsRole", "ApiGatewayMethodBCGet",
          "ApiGatewayMethodAGet", "ApiGatewayDeployment1", "ApiGatewayApiKey1",
          "ApiGatewayUsagePlan", "ApiGatewayUsagePlanKey1"] := by
  intro provider descriptors
  have nonempty : descriptors ≠ [] := List.cons_ne_nil _ _
  have accepted : (parse descriptors).isOk := by decide
  have succeeds : (compile provider descriptors Template.empty).1.isOk := by
    decide +kernel
  cases hparse : parse descriptors with
  | error error =>
      rw [hparse] at accepted
      cases accepted
  | ok proxies =>
      rcases compile_contents nonempty hparse with
        ⟨reason, -, hrefused⟩ | ⟨report, compiled, paths, hrun, hcount, -, -,
          -, -, hkeys, -⟩
      · rw [hrefused] at succeeds
        cases succeeds
      · refine ⟨proxies, report, compiled, paths, nonempty, rfl, hrun,
          hcount, hkeys, ?_⟩
        obtain rfl : (compile provider descriptors Template.empty).2
            = compiled :=
          congrArg Prod.snd hrun
        decide +kernel

end GatewayStack
