import GatewayStack.Proofs.Routes
import GatewayStack.Proofs.Stages
import GatewayStack.Proofs.Urls

/-!
# The tree of a compiled template

What is left between the stages of the paths and a whole compilation: the
resources of the tree are written by one stage, and nothing before or after it
writes under their ids. So a look-up in the compiled template is a look-up among
the entries of that stage, where the last one under an id wins, and following a
parent is following one of these entries.
-/

namespace GatewayStack

open LogicalId

/-- The entries that the tree writes. -/
def PathTree.entries (api : Api) (events : List Event) : Fields Json :=
  (paths events).map fun path => (LogicalId.resource path, resource api path)

theorem PathTree.resources_stage {api : Api} (h : api.existing = [])
    (events : List Event) :
    (PathTree.stage api events).resources
      = Fields.setAll [] (PathTree.entries api events) := by
  have hall : (paths events).filter (fun path => !api.isExisting path)
      = paths events := by
    refine List.filter_eq_self.mpr fun path _ => ?_
    rw [Api.isExisting, h]
    rfl
  unfold PathTree.stage PathTree.entries
  rw [hall]
  rfl

theorem PathTree.parentOf?_ref {api : Api} {template : Template}
    {id path : String}
    (h : template.resource? id = some (PathTree.resource api path)) :
    template.parentOf? (Intrinsic.ref id) = some
      (api.resourceId (String.ofList (Path.parent path.toList)),
        String.ofList (Path.leaf path.toList)) := by
  have hid : Intrinsic.refId? (Intrinsic.ref id) = some id := rfl
  unfold Template.parentOf?
  rw [hid]
  simp only [Option.bind_eq_bind, Option.bind_some, h]
  rfl

namespace Compile

variable {provider : Provider} {normalized : Normalized} {report : Report}
  {compiled : Template}

/-- No other stage writes under the ids of the tree. -/
theorem resource?_tree
    (h : events provider normalized Template.empty = .ok (report, compiled))
    (q : String) :
    compiled.resource? (LogicalId.resource q)
      = Fields.get? (PathTree.stage (Api.ofProvider provider)
          normalized.events).resources (LogicalId.resource q) := by
  obtain ⟨restApi, keys, hapi, hkeys, -, rfl⟩ := events_empty_eq_ok h
  have before : ∀ f ∈ [restApi], LogicalId.resource q ∉
      Fields.keys f.resources := by
    intro f hf
    rw [List.mem_singleton.mp hf]
    exact (RestApi.kinded hapi).not_mem_keys (.resource q) (by decide)
  let later : List Fragment :=
    Preflight.stage (Api.ofProvider provider) normalized.preflights
      :: Service.all.map (Backend.stage (Api.ofProvider provider) normalized) ++
      [Deployment.creation provider (Api.ofProvider provider)
        ((stages provider normalized restApi).flatMap Fragment.methodIds), keys]
  have after : ∀ f ∈ later, LogicalId.resource q ∉ Fields.keys f.resources := by
    intro f hf
    rcases List.mem_append.mp hf with hf | hf
    · rcases List.mem_cons.mp hf with rfl | hf
      · exact (Preflight.kinded _ _).not_mem_keys (.resource q) (by decide)
      · obtain ⟨service, -, rfl⟩ := List.mem_map.mp hf
        exact (Backend.kinded _ _ service).not_mem_keys
          (.resource q) (by decide)
    · rcases List.mem_cons.mp hf with rfl | hf
      · exact (Deployment.kinded_creation _ _ _).not_mem_keys
          (.resource q) (by decide)
      · rw [List.mem_singleton.mp hf]
        exact (ApiKeys.kinded hkeys).not_mem_keys (.resource q) (by decide)
  show Fields.get? (mergeAll Template.empty ([restApi] ++
    PathTree.stage (Api.ofProvider provider) normalized.events ::
      later)).resources _ = _
  exact get?_mergeAll_single
    (PathTree.distinct_stage (Api.ofProvider provider) normalized.events)
    before after

/-- The tree's resources in the template are its entries; the last one wins. -/
theorem resource?_resource (fresh : provider.gateway.resources = [])
    (h : events provider normalized Template.empty = .ok (report, compiled))
    (q : String) :
    compiled.resource? (LogicalId.resource q)
      = Fields.get? (PathTree.entries (Api.ofProvider provider)
          normalized.events).reverse (LogicalId.resource q) := by
  have hexisting : (Api.ofProvider provider).existing = [] := by
    unfold Api.ofProvider
    rw [fresh]
    rfl
  rw [resource?_tree h, PathTree.resources_stage hexisting, Fields.get?_setAll,
    Fields.get?_nil, Option.or_none]

theorem resource?_eq_some (fresh : provider.gateway.resources = [])
    (h : events provider normalized Template.empty = .ok (report, compiled))
    {q : String} {found : Json}
    (hfound : compiled.resource? (LogicalId.resource q) = some found) :
    ∃ w ∈ PathTree.paths normalized.events, LogicalId.resource w
      = LogicalId.resource q ∧
      found = PathTree.resource (Api.ofProvider provider) w := by
  rw [resource?_resource fresh h] at hfound
  have hentry := List.mem_reverse.mp (Fields.mem_of_get? hfound)
  obtain ⟨w, hw, heq⟩ := List.mem_map.mp hentry
  obtain ⟨hid, hresource⟩ := Prod.mk.inj heq
  exact ⟨w, hw, hid, hresource.symm⟩

/-- A run into an empty template holds the tree of its paths. -/
theorem holdsTree (fresh : provider.gateway.resources = [])
    (h : events provider normalized Template.empty = .ok (report, compiled)) :
    HoldsTree (Api.ofProvider provider) (PathTree.paths normalized.events)
      compiled where
  noneExists := by
    unfold Api.ofProvider
    rw [fresh]
    rfl
  found := by
    intro p hp
    cases hfound : compiled.resource? (LogicalId.resource p) with
    | none =>
        rw [resource?_resource fresh h, Fields.get?_eq_none_iff] at hfound
        have hentry := List.mem_map_of_mem (f := fun path =>
          (LogicalId.resource path,
            PathTree.resource (Api.ofProvider provider) path)) hp
        exact absurd (Fields.mem_keys_of_mem (List.mem_reverse.mpr hentry))
          hfound
    | some found =>
        obtain ⟨w, -, -, rfl⟩ := resource?_eq_some fresh h hfound
        exact ⟨_, _, PathTree.parentOf?_ref hfound⟩
  only := by
    intro value parent part hup
    obtain ⟨id, found, rfl, hfound, htype⟩ :=
      Template.exists_of_parentOf?_eq_some hup
    have hkind : OfKind .resource id :=
      ((kinded_events_empty h).field_type_iff (Fields.mem_of_get? hfound)).mp
        htype
    obtain ⟨q⟩ := hkind
    obtain ⟨w, hw, hid, rfl⟩ := resource?_eq_some fresh h hfound
    rw [PathTree.parentOf?_ref hfound] at hup
    obtain ⟨rfl, rfl⟩ := Prod.mk.inj (Option.some.inj hup)
    exact ⟨w, hw, by rw [hid], rfl, rfl⟩

end Compile

/-- A compilation into an empty template that has no resources to build on
deploys every event at its path exactly when no two stages of the paths share a
fragment, no path begins with a slash, and the root is none of the stages. -/
theorem methods_deployed_iff {provider : Provider} {descriptors : List Json}
    {proxies : List ServiceProxy} {report : Report} {template : Template}
    (hparse : parse descriptors = .ok proxies)
    (fresh : provider.gateway.resources = [])
    (h : compile provider descriptors Template.empty = (.ok report, template)) :
    (∀ event ∈ (Normalized.ofProxies proxies).events,
        Deployed (Api.ofProvider provider) template event) ↔
      PathTree.Faithful (Api.ofProvider provider)
        (Normalized.ofProxies proxies).events := by
  by_cases empty : descriptors = []
  · subst empty
    obtain rfl := Except.ok.inj hparse
    refine ⟨fun _ => ⟨fun p hp => ?_, fun event hevent => ?_, fun q hq => ?_⟩,
      fun _ event hevent => ?_⟩
    · exact absurd hp List.not_mem_nil
    · exact absurd hevent List.not_mem_nil
    · exact absurd hq List.not_mem_nil
    · exact absurd hevent List.not_mem_nil
  · obtain ⟨found, hfound, hevents⟩ := Compile.compile_eq_ok empty h
    rw [hparse] at hfound
    obtain rfl := Except.ok.inj hfound
    exact (Compile.holdsTree fresh hevents).deployed_iff

/-- A path below another one that differs from it in more than case. -/
theorem deployed_at_a_b :
    ∃ proxies report template,
      parse [topicDescriptor "a/b" "get", topicDescriptor "c" "get"]
        = .ok proxies ∧
      (Provider.ofStage "shop" "dev" "1").gateway.resources = [] ∧
      compile (Provider.ofStage "shop" "dev" "1")
        [topicDescriptor "a/b" "get", topicDescriptor "c" "get"] Template.empty
          = (.ok report, template) ∧
      ∀ event ∈ (Normalized.ofProxies proxies).events,
        Deployed (Api.ofProvider (Provider.ofStage "shop" "dev" "1"))
          template event := by
  let topic (path : String) : ServiceProxy :=
    ⟨⟨path, .get, none, none, none, none, false, none, [], none⟩,
      .sns ⟨.literal "topic"⟩⟩
  have hparse : parse [topicDescriptor "a/b" "get", topicDescriptor "c" "get"]
      = .ok [topic "a/b", topic "c"] := by decide
  have report : (compile (Provider.ofStage "shop" "dev" "1")
      [topicDescriptor "a/b" "get", topicDescriptor "c" "get"] Template.empty).1
        = .ok ⟨2, ["ApiGatewayMethodABGet", "ApiGatewayMethodCGet"],
          some "ApiGatewayDeployment1"⟩ := by decide
  refine ⟨_, _, _, hparse, rfl, Prod.ext report rfl, ?_⟩
  refine (methods_deployed_iff hparse rfl (Prod.ext report rfl)).mpr
    ⟨?_, ?_, ?_⟩
  · decide
  · decide
  · decide

/-- A path that is compiled before one with its letters in the other case is
deployed at the other one. -/
theorem not_deployed_at_a :
    ∃ proxies,
      parse [topicDescriptor "a" "get", topicDescriptor "A" "post"]
        = .ok proxies ∧
      (compile (Provider.ofStage "shop" "dev" "1")
        [topicDescriptor "a" "get", topicDescriptor "A" "post"]
        Template.empty).1
          = .ok ⟨2, ["ApiGatewayMethodAGet", "ApiGatewayMethodAPost"],
              some "ApiGatewayDeployment1"⟩ ∧
      ∃ event ∈ (Normalized.ofProxies proxies).events, event.path = "a" ∧
        ¬ Deployed (Api.ofProvider (Provider.ofStage "shop" "dev" "1"))
          (compile (Provider.ofStage "shop" "dev" "1")
            [topicDescriptor "a" "get", topicDescriptor "A" "post"]
            Template.empty).2 event := by
  let topic (path : String) (verb : Verb) : ServiceProxy :=
    ⟨⟨path, verb, none, none, none, none, false, none, [], none⟩,
      .sns ⟨.literal "topic"⟩⟩
  have hparse : parse [topicDescriptor "a" "get", topicDescriptor "A" "post"]
      = .ok [topic "a" .get, topic "A" .post] := by decide
  have spelled : Leads
      (compile (Provider.ofStage "shop" "dev" "1")
        [topicDescriptor "a" "get", topicDescriptor "A" "post"]
        Template.empty).2
      (Api.ofProvider (Provider.ofStage "shop" "dev" "1")).rootResourceId
      (Intrinsic.ref "ApiGatewayResourceA") ([] ++ ["A"]) :=
    .step (by decide +kernel) (.root (by decide +kernel))
  have hid : (Api.ofProvider (Provider.ofStage "shop" "dev" "1")).resourceId
        (Event.ofProxy (topic "a" .get)).path
      = Intrinsic.ref "ApiGatewayResourceA" := by decide
  refine ⟨_, hparse, by decide, Event.ofProxy (topic "a" .get),
    List.mem_cons_self, by decide, ?_⟩
  intro ⟨parts, leads, hjoin⟩
  rw [hid] at leads
  rw [leads.unique spelled] at hjoin
  revert hjoin
  decide

end GatewayStack
