import GatewayStack.Proofs.ApiReferences
import GatewayStack.Proofs.KeyedMethods
import GatewayStack.Proofs.Methods
import GatewayStack.Proofs.Tree

/-!
# References to the resources of paths

A method is put on the resource of its path, and the resource of a path under
the one of the path above it. The tree of paths is closed under going up, so a
parent is always there. A method may not be so lucky, in two ways.

The stages of a path lose the slashes that it begins with, while a method looks
up its path as it is. As the two have the same fragment, that goes unnoticed as
long as the shorter path gets a resource from the compiler. Where it is
configured to exist, nothing has the id that the method refers to.

And methods with the same id are one method in the end. Within one stage
the last one stands. The ones of several stages are merged, and with them
what they refer to.

So the value that is found at a method is computed first, from the routes alone
(`Normalized.place?`), and what is left is when a value leads somewhere
(`Compile.resolves_iff`).
-/

namespace GatewayStack

open LogicalId

/-- A reference to a path that leads somewhere: to the root, to a resource that
is configured to exist, or to the resource of a path in the template. -/
def Template.Resolves (template : Template) (provider : Provider)
    (value : Json) : Prop :=
  value = (Api.ofProvider provider).rootResourceId ∨
    (∃ entry ∈ provider.gateway.resources, entry.2 = value) ∨
    ∃ id resource, value = Intrinsic.ref id ∧
      template.resource? id = some resource ∧
      resource.field? "Type" = some (.str "AWS::ApiGateway::Resource")

/-- Every resource of a type has a reference of this name among its properties,
and it leads somewhere. -/
def Template.AllResolve (template : Template) (provider : Provider)
    (type name : String) : Prop :=
  ∀ id resource, template.resource? id = some resource →
    resource.field? "Type" = some (.str type) →
      ∃ value, resource.at? ["Properties", name] = some value ∧
        template.Resolves provider value

/-- The same of a value alone: it is the root, it is configured, or it refers to
a stage of a path that is not configured to exist. -/
def Located (provider : Provider) (events : List Event) (value : Json) : Prop :=
  value = (Api.ofProvider provider).rootResourceId ∨
    (∃ entry ∈ provider.gateway.resources, entry.2 = value) ∨
    ∃ path ∈ PathTree.paths events,
      (Api.ofProvider provider).isExisting path = false ∧
      value = Intrinsic.ref (LogicalId.resource path)

namespace Normalized

/-- The routes that each stage of methods makes, in order. -/
def routesByStage (normalized : Normalized) : List (List Route) :=
  (Fields.keys normalized.preflights).map (fun path => ⟨path, .options⟩) ::
    Service.all.map fun service =>
      (normalized.eventsFor service).map Event.route

/-- The routes that have a say in the method with an id: of each stage
the last one. -/
def claimants (normalized : Normalized) (id : String) : List Route :=
  normalized.routesByStage.filterMap fun routes =>
    (routes.filter fun route => route.id = id).getLast?

/-- The reference to a path that is left at the method with an id. -/
def place? (normalized : Normalized) (api : Api) (id : String) : Option Json :=
  Json.mergeOnto none ((normalized.claimants id).map fun route =>
    api.resourceId route.path)

theorem flatten_routesByStage (normalized : Normalized) :
    normalized.routesByStage.flatten = normalized.routes := by
  unfold routesByStage routes
  rw [List.flatten_cons, ← List.flatMap_def]

/-! ## A route that shares its id with no other -/

theorem filterMap_getLast?_eq_singleton {α : Type}
    {lists : List (List α)} {a : α} (h : lists.flatten = [a]) :
    lists.filterMap List.getLast? = [a] := by
  induction lists with
  | nil => cases h
  | cons first rest ih =>
      rw [List.flatten_cons] at h
      rcases List.append_eq_singleton_iff.mp h with ⟨rfl, hrest⟩ | ⟨rfl, hrest⟩
      · exact ih hrest
      · have none_left : rest.filterMap List.getLast? = [] := by
          refine List.filterMap_eq_nil_iff.mpr fun list hlist => ?_
          rw [List.flatten_eq_nil_iff.mp hrest list hlist, List.getLast?_nil]
        rw [List.filterMap_cons_some (List.getLast?_singleton), none_left]

theorem claimants_eq_singleton {normalized : Normalized}
    (distinct : normalized.routes.Nodup) {route : Route}
    (hmem : route ∈ normalized.routes)
    (alone : ∀ other ∈ normalized.routes, other.id = route.id → other = route) :
    normalized.claimants route.id = [route] := by
  have hfilter : (normalized.routes.filter fun other => other.id = route.id)
      = [route] := by
    refine List.perm_singleton.mp
      ((List.perm_ext_iff_of_nodup (distinct.filter _)
        (List.nodup_singleton route)).mpr fun other => ?_)
    rw [List.mem_filter, List.mem_singleton]
    refine ⟨fun ⟨hother, hid⟩ => alone other hother (of_decide_eq_true hid), ?_⟩
    rintro rfl
    exact ⟨hmem, decide_eq_true rfl⟩
  rw [← flatten_routesByStage, List.filter_flatten] at hfilter
  have hlast := filterMap_getLast?_eq_singleton hfilter
  rwa [List.filterMap_map] at hlast

end Normalized

/-! ## What is left at a method -/

/-- A mapping with properties, and no name twice in either. -/
def Json.Propertied (value : Json) : Prop :=
  ∃ fields properties, value = .obj fields ∧ Fields.Distinct fields ∧
    Fields.get? fields "Properties" = some (.obj properties) ∧
    Fields.Distinct properties

theorem Json.at?_mergeOnto {versions : List Json}
    (h : ∀ version ∈ versions, version.Propertied) (name : String) :
    ((mergeOnto none versions).bind fun merged =>
      merged.at? ["Properties", name])
        = mergeOnto none (versions.filterMap fun version =>
          version.at? ["Properties", name]) := by
  have two (value : Json) : value.at? ["Properties", name]
      = (value.field? "Properties").bind fun inner => inner.field? name := by
    simp [at?_cons]
  have outer : ∀ version ∈ versions, ∃ fields, version = .obj fields ∧
      Fields.Distinct fields := by
    intro version hmem
    obtain ⟨fields, -, rfl, distinct, -⟩ := h version hmem
    exact ⟨fields, rfl, distinct⟩
  have inner : ∀ found ∈ versions.filterMap (fun version =>
      version.field? "Properties"),
      ∃ fields, found = .obj fields ∧ Fields.Distinct fields := by
    intro found hfound
    obtain ⟨version, hmem, hget⟩ := List.mem_filterMap.mp hfound
    obtain ⟨fields, properties, rfl, -, hproperties, distinct⟩ := h version hmem
    exact ⟨properties, Option.some.inj (hget.symm.trans hproperties), distinct⟩
  simp only [two]
  rw [← Option.bind_assoc, field?_mergeOnto_obj outer,
    field?_mergeOnto_obj inner, List.filterMap_filterMap]

theorem Preflight.propertied_resource (api : Api) (path : String)
    (policy : CorsPolicy) :
    (Preflight.resource api path policy).Propertied :=
  ⟨_, _, rfl, by simp [Fields.Distinct], rfl, by simp [Fields.Distinct]⟩

theorem Preflight.at?_resourceId (api : Api) (path : String)
    (policy : CorsPolicy) :
    (Preflight.resource api path policy).at? ["Properties", "ResourceId"]
      = some (api.resourceId path) := rfl

theorem Method.propertied_resource (api : Api) (event : Event) :
    (Method.resource api event).Propertied :=
  ⟨_, _, rfl, by simp [Fields.Distinct], rfl, Method.distinct_properties ..⟩

theorem Method.at?_resourceId (api : Api) (event : Event) :
    (Method.resource api event).at? ["Properties", "ResourceId"]
      = some (api.resourceId event.path) := by
  unfold Method.resource Method.resourceOf
  cases event.authorizerId <;> cases event.authorizationScopes <;> rfl

/-- A stage that writes entries for routes leaves under an id the reference of
the last route with that id. -/
theorem at?_entries {α : Type} {api : Api} {items : List α}
    {entry : α → String × Json} {route : α → Route}
    (hid : ∀ item, (entry item).1 = (route item).id)
    (hat : ∀ item, (entry item).2.at? ["Properties", "ResourceId"]
      = some (api.resourceId (route item).path)) (id : String) :
    ((Fields.get? (Fields.setAll [] (items.map entry)) id).bind fun resource =>
        resource.at? ["Properties", "ResourceId"])
      = (((items.map route).filter fun route => route.id = id).getLast?).map
        fun route =>
          api.resourceId route.path := by
  rw [Fields.get?_setAll, Fields.get?_nil, Option.or_none,
    Fields.get?_reverse_map]
  rw [List.filter_map, List.getLast?_map, Option.map_map, Option.bind_map]
  simp only [Function.comp_def, hat, hid]
  exact Option.map_eq_bind.symm

theorem Preflight.at?_stage (api : Api) (preflights : Fields CorsPolicy)
    (id : String) :
    ((Fields.get? (Preflight.stage api preflights).resources id).bind
      fun resource =>
        resource.at? ["Properties", "ResourceId"])
      = ((((Fields.keys preflights).map fun path =>
        (⟨path, .options⟩ : Route)).filter
          fun route => route.id = id).getLast?).map fun route =>
          api.resourceId route.path := by
  unfold Preflight.stage Fields.keys
  rw [Fragment.resources_addMethods, List.map_map]
  exact at?_entries (fun _ => rfl) (fun entry =>
    Preflight.at?_resourceId api entry.1 entry.2) id

theorem Backend.at?_stage (api : Api) (normalized : Normalized)
    (service : Service) {id : String} (hid : OfKind .method id) :
    ((Fields.get? (Backend.stage api normalized service).resources id).bind
      fun resource =>
        resource.at? ["Properties", "ResourceId"])
      = ((((normalized.eventsFor service).map Event.route).filter
          fun route => route.id = id).getLast?).map fun route =>
          api.resourceId route.path := by
  have noRole : Fields.get? (roleFragment service
        (normalized.eventsFor service)).resources id
      = none := (kinded_roleFragment service _).get?_eq_none hid (by decide)
  have distinct : Fields.Distinct
      (methodFragment api (normalized.eventsFor service)).resources :=
    Fragment.distinct_addMethods _
  show ((Fields.get? (Fields.setAll _ _) id).bind _) = _
  rw [Fields.get?_setAll, noRole, Option.or_none, Fields.get?_reverse distinct]
  unfold methodFragment
  rw [Fragment.resources_addMethods]
  exact at?_entries (fun _ => rfl) (Method.at?_resourceId api) id

namespace Compile

variable {provider : Provider} {normalized : Normalized} {report : Report}
  {compiled : Template}

/-- The references of the versions of a method, stage by stage. -/
theorem references_versions {restApi : Fragment}
    (hapi : RestApi.stage provider = .ok restApi) {id : String}
    (hid : OfKind .method id) :
    ((versions (stages provider normalized restApi) id).filterMap fun version =>
        version.at? ["Properties", "ResourceId"])
      = (normalized.claimants id).map fun route =>
          (Api.ofProvider provider).resourceId route.path := by
  have noApi : Fields.get? restApi.resources id = none :=
    (RestApi.kinded hapi).get?_eq_none hid (by decide)
  have noPath : Fields.get? (PathTree.stage (Api.ofProvider provider)
      normalized.events).resources id = none :=
      (PathTree.kinded _ _).get?_eq_none hid (by decide)
  unfold stages Normalized.claimants Normalized.routesByStage
  rw [versions_cons, versions_cons, noApi, noPath, Option.toList_none,
    List.nil_append, List.nil_append, versions, List.filterMap_filterMap,
    List.map_filterMap]
  rw [List.filterMap_cons, List.filterMap_cons, Preflight.at?_stage,
    List.filterMap_map, List.filterMap_map]
  have services : (fun service =>
      (Fields.get? (Backend.stage (Api.ofProvider provider) normalized
        service).resources id).bind fun version => version.at? ["Properties",
        "ResourceId"])
      = fun service => ((((normalized.eventsFor service).map Event.route).filter
          fun route => route.id = id).getLast?).map fun route =>
            (Api.ofProvider provider).resourceId route.path :=
    funext fun service => Backend.at?_stage _ normalized service hid
  simp only [Function.comp_def, services]

/-- The reference that a method has in the end. -/
theorem at?_method
    (h : events provider normalized Template.empty = .ok (report, compiled))
    {id : String} (hid : OfKind .method id) {resource : Json}
    (hresource : compiled.resource? id = some resource) :
    resource.at? ["Properties", "ResourceId"]
      = normalized.place? (Api.ofProvider provider) id := by
  obtain ⟨restApi, -, hapi, -⟩ := events_empty_eq_ok h
  have propertied :
      ∀ version ∈ versions (stages provider normalized restApi) id,
        version.Propertied := by
    intro version hversion
    obtain ⟨fragment, hfragment, hmem⟩ := exists_mem_of_versions hversion
    obtain ⟨kind, -, generated⟩ :=
      generated_of_mem_stages hapi "" fragment hfragment id version hmem
    obtain rfl := generated.ofKind.unique hid
    cases generated with
    | preflight => exact Preflight.propertied_resource _ _ _
    | method => exact Method.propertied_resource _ _
  have hmerged : Json.mergeOnto none
        (versions (stages provider normalized restApi) id)
      = some resource :=
    (resource?_early hapi h Template.orderly_empty hid (by decide)).symm.trans
      hresource
  have hat := Json.at?_mergeOnto propertied "ResourceId"
  rw [hmerged, references_versions hapi hid] at hat
  exact hat

/-! ## Where a value leads -/

/-- What is found under the ids of the tree is a stage of a path. -/
theorem exists_path_of_resource?
    (h : events provider normalized Template.empty = .ok (report, compiled))
    {id : String} {resource : Json}
    (hresource : compiled.resource? id = some resource)
    (htype : resource.field? "Type" = some (.str Kind.resource.type)) :
    ∃ path ∈ PathTree.paths normalized.events,
      (Api.ofProvider provider).isExisting path = false ∧
      id = LogicalId.resource path ∧ resource
        = PathTree.resource (Api.ofProvider provider) path := by
  have hid : OfKind .resource id :=
    ((kinded_events_empty h).field_type_iff (Fields.mem_of_get? hresource)).mp
      htype
  obtain ⟨q⟩ := hid
  rw [resource?_tree h] at hresource
  exact PathTree.mem_stage (Fields.mem_of_get? hresource)

theorem resolves_iff
    (h : events provider normalized Template.empty = .ok (report, compiled))
    {value : Json} : compiled.Resolves provider value ↔
    Located provider normalized.events value := by
  refine or_congr_right (or_congr_right ⟨?_, ?_⟩)
  · rintro ⟨id, resource, rfl, hresource, htype⟩
    obtain ⟨path, hpath, missing, rfl, -⟩ :=
      exists_path_of_resource? h hresource htype
    exact ⟨path, hpath, missing, rfl⟩
  · rintro ⟨path, hpath, missing, rfl⟩
    have hkey := PathTree.mem_keys_stage hpath missing
    cases hresource : compiled.resource? (LogicalId.resource path) with
    | none =>
        rw [resource?_tree h, Fields.get?_eq_none_iff] at hresource
        exact absurd hkey hresource
    | some resource =>
        refine ⟨_, resource, rfl, hresource, ?_⟩
        exact ((kinded_events_empty h).field_type_iff
          (Fields.mem_of_get? hresource)).mpr (.resource path)

end Compile

/-- A path whose own resource is made, or need not be, has a reference that
leads somewhere. -/
theorem located_resourceId {provider : Provider} {events : List Event}
    {path : String} (h : path ≠ "" →
      (Api.ofProvider provider).isExisting path = false →
      path ∈ PathTree.paths events) :
    Located provider events ((Api.ofProvider provider).resourceId path) := by
  unfold Api.resourceId
  split
  · exact Or.inl rfl
  · next hpath =>
      split
      · next id hid => exact Or.inr (Or.inl (Api.mem_resources_of_existing hid))
      · next hid =>
          have missing : (Api.ofProvider provider).isExisting path = false := by
            unfold Api.isExisting Fields.contains
            rw [hid]
            rfl
          exact Or.inr (Or.inr ⟨path, h hpath missing, missing, rfl⟩)

/-- Going up from a stage leads somewhere. -/
theorem PathTree.located_parent {provider : Provider} {events : List Event}
    {path : String} (h : path ∈ PathTree.paths events) : Located provider events
      ((Api.ofProvider provider).resourceId
        (String.ofList (Path.parent path.toList))) := by
  obtain ⟨event, hevent, hproper, hinitial⟩ := PathTree.mem_paths.mp h
  refine located_resourceId fun hparent _ =>
    PathTree.mem_paths.mpr ⟨event, hevent, hproper, ?_⟩
  rw [String.toList_ofList]
  refine Path.parent_mem_prefixes hinitial fun hnone => hparent ?_
  rw [hnone]

/-- A path that begins with no slash is a stage of itself. -/
theorem Event.located_path {provider : Provider} {events : List Event}
    {event : Event} (hevent : event ∈ events)
    (unslashed : event.path.toList.head? ≠ some '/') :
    Located provider events ((Api.ofProvider provider).resourceId
      event.path) := by
  refine located_resourceId fun hproper _ =>
    PathTree.mem_paths.mpr ⟨event, hevent, hproper, ?_⟩
  exact Path.mem_prefixes_self (fun hnone =>
    hproper (String.toList_eq_nil_iff.mp hnone)) unslashed

theorem Claimed.exists_event {proxies : List ServiceProxy} {route : Route}
    (h : Claimed proxies route) :
    ∃ event ∈ (Normalized.ofProxies proxies).events,
      event.path = route.path := by
  rcases h with hmem | ⟨hpath, -⟩
  · obtain ⟨proxy, hproxy, rfl⟩ := List.mem_map.mp hmem
    exact ⟨Event.ofProxy proxy, List.mem_map_of_mem hproxy, rfl⟩
  · obtain ⟨proxy, hproxy, -, hpath⟩ := mem_corsPaths.mp hpath
    exact ⟨Event.ofProxy proxy, List.mem_map_of_mem hproxy, hpath⟩

/-- The methods of the template are those of the claimed routes. -/
theorem Compile.exists_method_iff {provider : Provider}
    {descriptors : List Json} {proxies : List ServiceProxy} {report : Report}
    {template : Template} (hparse : parse descriptors = .ok proxies)
    (h : compile provider descriptors Template.empty = (.ok report, template))
    (kinded : Kinded (fun _ => True) template.resources) (id : String) :
    (∃ resource, template.resource? id = some resource ∧
        resource.field? "Type" = some (.str Kind.method.type)) ↔
      ∃ route, Claimed proxies route ∧ route.id = id := by
  obtain ⟨hids, hperm⟩ := Compile.methods_eq hparse h
  have hroutes : id ∈ template.idsOfType Kind.method.type ↔
      ∃ route, Claimed proxies route ∧ route.id = id := by
    refine hperm.mem_iff.trans ?_
    rw [List.mem_dedup, hids, List.mem_map]
    simp only [mem_routes_iff hparse]
  rw [← hroutes, Compile.mem_idsOfType kinded]
  refine ⟨fun ⟨resource, hresource, htype⟩ => ?_, fun ⟨hkey, hid⟩ => ?_⟩
  · have hmem := Fields.mem_of_get? hresource
    exact ⟨Fields.mem_keys_of_mem hmem, (kinded.field_type_iff hmem).mp htype⟩
  · cases hresource : template.resource? id with
    | none => exact absurd hkey (Fields.get?_eq_none_iff.mp hresource)
    | some resource =>
        exact ⟨resource, rfl,
          (kinded.field_type_iff (Fields.mem_of_get? hresource)).mpr hid⟩

/-- Compiled into an empty template, every resource of a path has a parent
that leads somewhere. Every method has a path that does, exactly when this
holds of what its id is left with. A route that shares its id with no other is
left with the reference to its own path, and that leads somewhere if the path
begins with no slash. -/
theorem path_references_resolve_iff {provider : Provider}
    {descriptors : List Json} {proxies : List ServiceProxy} {report : Report}
    {template : Template} (hparse : parse descriptors = .ok proxies)
    (h : compile provider descriptors Template.empty = (.ok report, template)) :
    let normalized := Normalized.ofProxies proxies
    let api := Api.ofProvider provider
    template.AllResolve provider "AWS::ApiGateway::Resource" "ParentId" ∧
      (template.AllResolve provider "AWS::ApiGateway::Method" "ResourceId" ↔
        ∀ route, Claimed proxies route → ∃ value,
          normalized.place? api route.id = some value ∧
            Located provider normalized.events value) ∧
      ∀ route, Claimed proxies route →
        ((∀ other, Claimed proxies other → other.id = route.id →
          other = route) →
          normalized.place? api route.id = some (api.resourceId route.path)) ∧
        (route.path.toList.head? ≠ some '/' →
          Located provider normalized.events (api.resourceId route.path)) := by
  intro normalized api
  by_cases empty : descriptors = []
  · subst empty
    obtain ⟨-, rfl⟩ := Prod.mk.inj h
    obtain rfl : [] = proxies := Except.ok.inj hparse
    have unclaimed : ∀ route, ¬ Claimed [] route := by
      rintro route (hmem | ⟨hmem, -⟩) <;> cases hmem
    have none : ∀ id resource, Template.empty.resource? id ≠ some resource := by
      intro id resource hresource
      cases hresource
    exact ⟨fun id resource hresource => absurd hresource (none id resource),
      iff_of_true (fun id resource hresource =>
        absurd hresource (none id resource))
        fun route claimed => absurd claimed (unclaimed route),
      fun route claimed => absurd claimed (unclaimed route)⟩
  · obtain ⟨_, hparse', hevents⟩ := Compile.compile_eq_ok empty h
    obtain rfl := Except.ok.inj (hparse.symm.trans hparse')
    have kinded := Compile.kinded_events_empty hevents
    have hmethods := Compile.exists_method_iff hparse h kinded
    have placed : ∀ (route : Route) resource, template.resource? route.id
        = some resource →
        resource.at? ["Properties", "ResourceId"]
          = normalized.place? api route.id :=
      fun route _ => Compile.at?_method hevents (.method route.path route.verb)
    refine ⟨fun id resource hresource htype => ?_, ⟨fun all route claimed => ?_,
      fun all id resource hresource htype => ?_⟩,
      fun route claimed => ⟨fun alone => ?_, fun unslashed => ?_⟩⟩
    · obtain ⟨path, hpath, -, rfl, rfl⟩ :=
        Compile.exists_path_of_resource? hevents hresource htype
      exact ⟨_, rfl, (Compile.resolves_iff hevents).mpr
        (PathTree.located_parent hpath)⟩
    · obtain ⟨resource, hresource, htype⟩ :=
        (hmethods route.id).mpr ⟨route, claimed, rfl⟩
      obtain ⟨value, hvalue, resolves⟩ := all _ resource hresource htype
      refine ⟨value, ?_, (Compile.resolves_iff hevents).mp resolves⟩
      exact (placed route resource hresource).symm.trans hvalue
    · obtain ⟨route, claimed, rfl⟩ :=
        (hmethods id).mp ⟨resource, hresource, htype⟩
      obtain ⟨value, hvalue, located⟩ := all route claimed
      refine ⟨value, ?_, (Compile.resolves_iff hevents).mpr located⟩
      exact (placed route resource hresource).trans hvalue
    · have hclaimants := Normalized.claimants_eq_singleton (nodup_claims hparse)
        ((mem_routes_iff hparse).mpr claimed)
        fun other hother => alone other ((mem_routes_iff hparse).mp hother)
      unfold Normalized.place?
      rw [hclaimants]
      rfl
    · obtain ⟨event, hevent, hpath⟩ := claimed.exists_event
      rw [← hpath] at unslashed ⊢
      exact Event.located_path hevent unslashed

/-- An existing API with a resource for one path, as a project configures it. -/
def Provider.ofExisting (path id : String) : Provider :=
  { Provider.ofStage "shop" "dev" "1" with
    gateway := { GatewaySettings.empty with
      restApiId := some "api"
      rootResourceId := some "root"
      resources := [(path, .str id)] } }

/-- A path below one that exists. -/
theorem path_references_resolve_a_b :
    ∃ proxies report template,
      parse [topicDescriptor "a/b" "get"] = .ok proxies ∧
      compile (Provider.ofExisting "a" "abc") [topicDescriptor "a/b" "get"]
          Template.empty
        = (.ok report, template) ∧
      template.AllResolve (Provider.ofExisting "a" "abc")
        "AWS::ApiGateway::Resource" "ParentId" ∧
      template.AllResolve (Provider.ofExisting "a" "abc")
        "AWS::ApiGateway::Method" "ResourceId" := by
  let topic : ServiceProxy :=
    ⟨⟨"a/b", .get, none, none, none, none, false, none, [], none⟩,
      .sns ⟨.literal "topic"⟩⟩
  have hparse : parse [topicDescriptor "a/b" "get"] = .ok [topic] := by decide
  have report : (compile (Provider.ofExisting "a" "abc")
      [topicDescriptor "a/b" "get"] Template.empty).1 = .ok ⟨1,
      ["ApiGatewayMethodABGet"], some "ApiGatewayDeployment1"⟩ := by
    decide
  have only : ∀ route, Claimed [topic] route → route = ⟨"a/b", .get⟩ := by
    rintro route (hmem | ⟨hmem, -⟩)
    · have heq : route = topic.route := List.mem_singleton.mp hmem
      exact heq.trans (by decide)
    · cases hmem
  obtain ⟨parents, methods, routes⟩ :=
    path_references_resolve_iff hparse (Prod.ext report rfl)
  refine ⟨_, _, _, hparse, Prod.ext report rfl, parents,
    methods.mpr fun route claimed => ?_⟩
  obtain ⟨placed, located⟩ := routes route claimed
  refine ⟨_, placed fun other hother _ =>
    (only other hother).trans (only route claimed).symm, located ?_⟩
  rw [only route claimed]
  decide

/-- A path that begins with a slash once it is normalized, above one that
exists: the method refers to a resource that nobody makes. -/
theorem dangling_path_slash_a :
    let provider := Provider.ofExisting "a" "abc"
    let run := compile provider [topicDescriptor "//a" "get"] Template.empty
    run.1 = .ok ⟨1, ["ApiGatewayMethodAGet"], some "ApiGatewayDeployment1"⟩ ∧
      ¬ run.2.AllResolve provider "AWS::ApiGateway::Method" "ResourceId" := by
  intro provider run
  refine ⟨by decide, fun all => ?_⟩
  have hmethod : (run.2.resource? "ApiGatewayMethodAGet").isSome := by decide
  have htype : (run.2.resource? "ApiGatewayMethodAGet").bind (·.field? "Type")
      = some (.str "AWS::ApiGateway::Method") := by decide
  have hplaced : (run.2.resource? "ApiGatewayMethodAGet").bind
        (·.at? ["Properties", "ResourceId"])
      = some (Intrinsic.ref "ApiGatewayResourceA") := by decide
  have hnone : run.2.resource? "ApiGatewayResourceA" = none := by decide
  obtain ⟨method, hmethod⟩ := Option.isSome_iff_exists.mp hmethod
  rw [hmethod, Option.bind_some] at htype hplaced
  obtain ⟨value, hvalue, resolves⟩ := all _ method hmethod htype
  obtain rfl := Option.some.inj (hplaced.symm.trans hvalue)
  rcases resolves with hroot | ⟨entry, hentry, heq⟩ |
    ⟨id, resource, href, hresource, -⟩
  · revert hroot
    decide
  · obtain rfl := List.mem_singleton.mp hentry
    revert heq
    decide
  · obtain rfl : "ApiGatewayResourceA" = id := by
      simpa [Intrinsic.ref] using href
    rw [hnone] at hresource
    cases hresource

end GatewayStack
