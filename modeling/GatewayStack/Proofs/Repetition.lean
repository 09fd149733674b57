import GatewayStack.Proofs.Frame
import GatewayStack.Proofs.Recompile

/-!
# Compiling twice

A run into what the same run left finds its deployment there and extends it, and
that is all that it changes. Everything else is merged in a second time: under
each id the stages have the same values as before, in the same order, and merged
onto what they came to the first time they come to it again
(`Json.mergeOnto_twice`). This needs that the first time they met nothing else,
hence the condition on the ids of the template.

The token of a run is used for the id of a deployment that it creates and for
nothing else. The second run creates none, so it may have another token.
-/

namespace GatewayStack

open LogicalId

/-- Two templates that agree but for the value of one resource. -/
theorem Template.eq_with_resource {a b : Template} {id : String} {value : Json}
    (distinct : Fields.Distinct b.resources) (hhead : b.head = a.head)
    (houtputs : b.outputs = a.outputs)
    (hkeys : Fields.keys b.resources = Fields.keys a.resources)
    (hvalue : b.resource? id = some value) (h : ∀ other, id ≠ other →
      b.resource? other = a.resource? other) :
    b = { a with resources := Fields.set a.resources id value } := by
  have hmem : id ∈ Fields.keys a.resources := by
    rw [← hkeys]
    exact Fields.mem_keys_of_mem (Fields.mem_of_get? hvalue)
  have hresources : b.resources = Fields.set a.resources id value := by
    refine Fields.eq_of_get? distinct ?_ fun other => ?_
    · rw [Fields.keys_set, if_pos hmem, hkeys]
    · by_cases hne : id = other
      · rw [← hne, Fields.get?_set_self]
        exact hvalue
      · rw [Fields.get?_set_of_ne _ _ hne]
        exact h other hne
  obtain ⟨head, resources, outputs⟩ := b
  obtain rfl : head = a.head := hhead
  obtain rfl : outputs = a.outputs := houtputs
  obtain rfl : resources = _ := hresources
  rfl

namespace Compile

variable {provider : Provider} {normalized : Normalized}
  {template compiled : Template} {report : Report} {restApi : Fragment}

/-! ## The deployment that a run leaves -/

/-- After a run its deployment is the first one, and what it depends
on is a list. -/
theorem exists_deployment
    (h : events provider normalized template = .ok (report, compiled))
    (orderly : template.Orderly) : compiled.Orderly ∧ ∃ id fields ids rest,
      report.deploymentId = some id ∧
        compiled.deployments
          = (id, Deployment.withDependencies fields ids) :: rest := by
  cases hfirst : template.deployments with
  | nil =>
      obtain ⟨horderly, hid, -, hdeployments⟩ := events_creates h orderly hfirst
      obtain ⟨fields, hfields, hown⟩ := Deployment.exists_fields provider
        (Api.ofProvider provider) report.methodIds
      rw [hfields, hown] at hdeployments
      exact ⟨horderly, _, fields, _, [], hid, hdeployments⟩
  | cons entry rest =>
      obtain ⟨id, existing⟩ := entry
      obtain ⟨fields, rfl⟩ :=
        exists_obj_of_isDeployment (mem_of_deployments hfirst).2
      obtain ⟨horderly, hid, -, hdeployments⟩ := events_extends h orderly hfirst
      exact ⟨horderly, id, fields, _, rest, hid, hdeployments⟩

theorem resource?_deployment (orderly : compiled.Orderly) {id : String}
    {value : Json} {rest : Fields Json}
    (h : compiled.deployments = (id, value) :: rest) :
    compiled.resource? id = some value :=
  Fields.get?_of_mem orderly.distinct (mem_of_deployments h).1

/-! ## The second run -/

theorem keysFrom_token (provider : Provider) (token : String) (api : Api)
    (deploymentId : String) (n : Nat) (names : List String) :
    ApiKeys.keysFrom { provider with token } api deploymentId n names
      = ApiKeys.keysFrom provider api deploymentId n names := by
  induction names generalizing n with
  | nil => rfl
  | cons name rest ih =>
      rw [ApiKeys.keysFrom, ApiKeys.keysFrom, ih]
      rfl

theorem keys_token (provider : Provider) (token : String) (api : Api)
    (deploymentId : String) :
    ApiKeys.stage { provider with token } api deploymentId
      = ApiKeys.stage provider api deploymentId := by
  unfold ApiKeys.stage
  simp only [keysFrom_token]
  rfl

/-- A run that finds a deployment, with any token. -/
theorem events_of_deployment (token : String)
    (hapi : RestApi.stage provider = .ok restApi) {keys : Fragment}
    {id : String} {fields rest : Fields Json} (orderly : template.Orderly)
    (hfirst : template.deployments = (id, .obj fields) :: rest)
    (hkeys : ApiKeys.stage provider (Api.ofProvider provider) id = .ok keys) :
    let early := stages provider normalized restApi
    let methodIds := early.flatMap Fragment.methodIds
    events { provider with token } normalized template
      = .ok (⟨normalized.events.length, methodIds, some id⟩,
          mergeAll template
            (early ++ [Fragment.empty.addResource id
              (Deployment.extension (.obj fields) methodIds), keys])) := by
  intro early methodIds
  have hapi' : RestApi.stage { provider with token } = .ok restApi := hapi
  have hdeployments := (staged_keeps normalized orderly hapi).2.1
  rw [hfirst] at hdeployments
  have hwired : wired { provider with token } normalized template restApi
      = (Fragment.empty.addResource id
        (Deployment.extension (.obj fields) methodIds), id) :=
    Deployment.stage_of_first hdeployments _ _ _
  have hkeys' :=
    (keys_token provider token (Api.ofProvider provider) id).trans hkeys
  rw [events_eq hapi', hwired, mergeAll_append]
  exact congrArg (Except.map _) hkeys'

/-- Under any other id than that of the deployment a run merges the versions
that the stages and the keys have. -/
theorem resource?_of_ne {early : List Fragment} {deployment keys : Fragment}
    {id other : String} {value : Json}
    (distinct : ∀ fragment ∈ early ++ [keys],
      Fields.Distinct fragment.resources) (hdeployment : deployment.resources
        = [(id, value)]) (hne : id ≠ other) :
    (mergeAll template (early ++ [deployment, keys])).resource? other
      = Json.mergeOnto (template.resource? other)
        (versions (early ++ [keys]) other) := by
  have hdistinct : ∀ fragment ∈ early ++ [deployment, keys],
      Fields.Distinct fragment.resources := by
    obtain ⟨hearly, hkeys⟩ := List.forall_mem_append.mp distinct
    refine List.forall_mem_append.mpr ⟨hearly,
      List.forall_mem_cons.mpr ⟨?_, hkeys⟩⟩
    rw [hdeployment]
    exact List.nodup_singleton _
  rw [Template.resource?, get?_mergeAll hdistinct, versions_append,
    versions_append, versions_cons deployment, hdeployment,
    Fields.get?, if_neg hne]
  rfl

/-- Merging in again what was merged into nothing changes nothing. -/
theorem resource?_again {early : List Fragment} {first second keys : Fragment}
    {id other : String} {value later : Json}
    (distinct : ∀ fragment ∈ early ++ [keys],
      Fields.Distinct fragment.resources)
    (keyed : ∀ version ∈ versions (early ++ [keys]) other, version.Keyed)
    (free : versions (early ++ [keys]) other ≠ [] →
      template.resource? other = none)
    (hfirst : first.resources = [(id, value)])
    (hsecond : second.resources = [(id, later)]) (hne : id ≠ other) :
    (mergeAll (mergeAll template (early ++ [first, keys]))
        (early ++ [second, keys])).resource? other
      = (mergeAll template (early ++ [first, keys])).resource? other := by
  rw [resource?_of_ne distinct hsecond hne, resource?_of_ne distinct hfirst hne]
  by_cases none : versions (early ++ [keys]) other = []
  · rw [none]
    rfl
  · rw [free none]
    exact Json.mergeOnto_twice keyed

theorem keys_again {early : List Fragment}
    {first second keys : Fragment} {id : String} {value later : Json}
    (hfirst : first.resources = [(id, value)])
    (hsecond : second.resources = [(id, later)]) :
    Fields.keys (mergeAll (mergeAll template (early ++ [first, keys]))
        (early ++ [second, keys])).resources
      = Fields.keys (mergeAll template (early ++ [first, keys])).resources := by
  rw [keys_mergeAll]
  refine FirstSeen.union_eq_self fun other hother => ?_
  rw [keys_mergeAll, FirstSeen.mem_union]
  simp only [List.flatMap_append, List.flatMap_cons, hfirst, hsecond]
    at hother ⊢
  exact Or.inr hother

/-- What a run merges besides the deployment is generated. -/
theorem generated_of_versions {keys : Fragment} {deploymentId id : String}
    (hapi : RestApi.stage provider = .ok restApi)
    (hkeys : ApiKeys.stage provider (Api.ofProvider provider)
      deploymentId = .ok keys) :
    ∀ version ∈ versions (stages provider normalized restApi ++ [keys]) id,
      ∃ kind, Generated provider normalized deploymentId kind id version := by
  intro version hversion
  obtain ⟨fragment, hfragment, hmem⟩ := exists_mem_of_versions hversion
  rcases List.mem_append.mp hfragment with hfragment | hfragment
  · obtain ⟨kind, -, hgenerated⟩ :=
      generated_of_mem_stages hapi deploymentId fragment hfragment
        id version hmem
    exact ⟨kind, hgenerated⟩
  · rw [List.mem_singleton.mp hfragment] at hmem
    obtain ⟨kind, -, hgenerated⟩ := ApiKeys.generated_of_mem_stage hkeys hmem
    exact ⟨kind, hgenerated⟩

theorem events_again (token : String) (hgateway : provider.gateway.Keyed)
    (hevents : ∀ event ∈ normalized.events, event.Keyed)
    (free : ∀ id ∈ Fields.keys template.resources, ¬ Reserved id)
    (h : events provider normalized template = .ok (report, compiled))
    (orderly : compiled.Orderly) {id : String} {fields rest : Fields Json}
    (hid : report.deploymentId = some id)
    (hdeployments : compiled.deployments = (id, .obj fields) :: rest) :
    events { provider with token } normalized compiled
      = .ok (report, { compiled with
      resources := Fields.set compiled.resources id
        (Deployment.withDependencies fields
          (Deployment.dependencies (.obj fields) ++ report.methodIds.map
            Json.str)) }) := by
  obtain ⟨restApi, keys, hapi, hkeys, rfl, rfl⟩ := events_eq_ok h
  obtain ⟨value, hmade⟩ :=
    exists_resources_wired provider normalized template restApi
  obtain hwired : (wired provider normalized template restApi).2 = id :=
    Option.some.inj hid
  rw [hwired] at hkeys hmade
  have hagain : events { provider with token } normalized _ = _ :=
    events_of_deployment token hapi orderly hdeployments hkeys
  obtain ⟨hsecond, -, houtputs, hlater⟩ :=
    events_extends hagain orderly hdeployments
  have distinct : ∀ fragment ∈ stages provider normalized restApi ++ [keys],
      Fields.Distinct fragment.resources := List.forall_mem_append.mpr
    ⟨distinct_stages hapi, List.forall_mem_singleton.mpr
      (ApiKeys.distinct hkeys)⟩
  rw [hagain, hwired]
  refine congrArg (fun again => Except.ok (_, again))
    (Template.eq_with_resource hsecond.distinct (head_mergeAll _ _) houtputs
      (keys_again hmade rfl) (resource?_deployment hsecond hlater)
    fun other hne => resource?_again distinct (fun version hversion => ?_)
      (fun some => ?_) hmade rfl hne)
  · obtain ⟨kind, hgenerated⟩ :=
      generated_of_versions hapi hkeys version hversion
    exact hgenerated.keyed hgateway hevents
  · obtain ⟨version, hversion⟩ := List.exists_mem_of_ne_nil _ some
    obtain ⟨kind, hgenerated⟩ :=
      generated_of_versions hapi hkeys version hversion
    exact Fields.get?_eq_none_iff.mpr fun hmem =>
      free other hmem hgenerated.ofKind.reserved

end Compile

/-- A second run of the same configuration, with any token, on what the first
one left: it succeeds with the same report, and the template is the same but for
what the deployment depends on, which has the ids of the methods once more
behind what it had. -/
theorem compile_twice {provider : Provider} {descriptors : List Json}
    {template first : Template} {report : Report}
    (keyed : ∀ descriptor ∈ descriptors, descriptor.Keyed)
    (hgateway : provider.gateway.Keyed)
    (distinct : Fields.Distinct template.resources)
    (free : ∀ id ∈ Fields.keys template.resources, ¬ Reserved id)
    (nonempty : descriptors ≠ [])
    (h : compile provider descriptors template = (.ok report, first))
    (token : String) :
    ∃ id fields before, report.deploymentId = some id ∧
      first.resource? id = some (.obj fields) ∧
      Fields.get? fields "DependsOn" = some (.arr before) ∧
      compile { provider with token } descriptors first = (.ok report,
        { first with
          resources := Fields.set first.resources id (.obj
            (Fields.set fields "DependsOn"
              (.arr (before ++ report.methodIds.map Json.str)))) }) := by
  have orderly : template.Orderly := ⟨distinct, .of_not_reserved free⟩
  obtain ⟨proxies, hparse, hevents⟩ := Compile.compile_eq_ok nonempty h
  obtain ⟨hfirst, id, fields, ids, rest, hid, hdeployments⟩ :=
    Compile.exists_deployment hevents orderly
  refine ⟨id, _, ids, hid, Compile.resource?_deployment hfirst hdeployments,
    Fields.get?_set_self _ _ _, ?_⟩
  refine Compile.compile_of_events nonempty hparse ?_
  have hagain := Compile.events_again token hgateway (keyed_events hparse keyed)
    free hevents hfirst hid hdeployments
  have hbefore : Deployment.dependencies
      (.obj (Fields.set fields "DependsOn" (.arr ids))) = ids :=
    Deployment.dependencies_withDependencies
  rw [hbefore] at hagain
  exact hagain

/-- Two runs beside a table, the second with another token. -/
theorem compile_twice_table :
    ∃ template first report,
      (∀ descriptor ∈ [topicDescriptor "a" "get"], descriptor.Keyed) ∧
      (Provider.ofStage "shop" "dev" "1").gateway.Keyed ∧
      Fields.Distinct template.resources ∧
      (∀ id ∈ Fields.keys template.resources, ¬ Reserved id) ∧
      [topicDescriptor "a" "get"] ≠ [] ∧
      compile (Provider.ofStage "shop" "dev" "1")
          [topicDescriptor "a" "get"] template
        = (.ok report, first) ∧
      ∃ fields before, first.resource? "ApiGatewayDeployment1"
        = some (.obj fields) ∧
        Fields.get? fields "DependsOn" = some (.arr before) ∧
        compile (Provider.ofStage "shop" "dev" "2")
            [topicDescriptor "a" "get"] first
          = (.ok report, { first with
              resources := Fields.set first.resources "ApiGatewayDeployment1"
                (.obj (Fields.set fields "DependsOn"
                  (.arr (before ++ [.str "ApiGatewayMethodAGet"])))) }) := by
  let template : Template :=
    ⟨[], [("Table", .obj [("Type", "AWS::DynamoDB::Table")])], []⟩
  have keyed : ∀ descriptor ∈ [topicDescriptor "a" "get"], descriptor.Keyed :=
    List.forall_mem_singleton.mpr (keyed_topicDescriptor "a" "get")
  have hgateway : (Provider.ofStage "shop" "dev" "1").gateway.Keyed :=
    GatewaySettings.keyed_empty
  have distinct : Fields.Distinct template.resources := List.nodup_singleton _
  have free : ∀ id ∈ Fields.keys template.resources, ¬ Reserved id := by decide
  have nonempty : [topicDescriptor "a" "get"] ≠ [] := List.cons_ne_nil _ _
  have hreport : (compile (Provider.ofStage "shop" "dev" "1")
      [topicDescriptor "a" "get"] template).1 = .ok ⟨1,
      ["ApiGatewayMethodAGet"], some "ApiGatewayDeployment1"⟩ := by decide
  have h := compile_eq_of_report hreport
  obtain ⟨id, fields, before, hid, hfirst, hbefore, hsecond⟩ :=
    compile_twice keyed hgateway distinct free nonempty h "2"
  obtain rfl : "ApiGatewayDeployment1" = id := Option.some.inj hid
  exact ⟨template, _, _, keyed, hgateway, distinct, free, nonempty, h, fields,
    before, hfirst, hbefore, hsecond⟩

end GatewayStack
