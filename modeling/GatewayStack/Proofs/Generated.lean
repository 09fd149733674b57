import GatewayStack.Proofs.Roles
import GatewayStack.Proofs.Urls

/-!
# What a run generates

A run puts ten kinds of things into a template, each under a condition of its
own and each in another stage. `Generated` lists them in one place, with the
ids and the values that they have and without the fragments by which they get
there. The deployment is not among them: it is the one resource that depends
on the template.

The list is exact. Whatever a stage has in its fragment is on it, with the kind
that its id is of (`Compile.generated_of_mem_stages`,
`ApiKeys.generated_of_mem_stage`). And everything on it has its id in the
fragment of some stage, though the value there may be that of another entry with
the same id (`Generated.exists_stage`, `Generated.mem_keys_stage`).
-/

namespace GatewayStack

open LogicalId

/-- What a run generates next to a deployment: the kind, the id and the
value. -/
inductive Generated (provider : Provider) (normalized : Normalized)
    (deploymentId : String) :
    Kind → String → Json → Prop
  | restApi {type : EndpointType} (created : provider.gateway.restApiId = none)
      (h : RestApi.endpointType provider = .ok type) :
      Generated provider normalized deploymentId .restApi LogicalId.restApi
        (RestApi.resource provider type)
  /-- A path of an event or one above it, without a resource that
  exists already. -/
  | resource {event : Event} {path : String} (mem : event ∈ normalized.events)
      (proper : event.path ≠ "") (initial :
        path.toList ∈ Path.prefixes event.path.toList)
      (missing : (Api.ofProvider provider).isExisting path = false) :
      Generated provider normalized deploymentId
        .resource (LogicalId.resource path)
        (PathTree.resource (Api.ofProvider provider) path)
  | preflight {path : String} {policy : CorsPolicy}
      (mem : (path, policy) ∈ normalized.preflights) :
      Generated provider normalized deploymentId
        .method (LogicalId.method path .options)
        (Preflight.resource (Api.ofProvider provider) path policy)
  | role {event : Event} {service : Service}
      (shares : normalized.SharesRole service event) :
      Generated provider normalized deploymentId .role (LogicalId.role service)
        (Permission.role service
          (Backend.sharedTargets (normalized.eventsFor service)))
  | method {event : Event} (mem : event ∈ normalized.events) :
      Generated provider normalized deploymentId .method (Method.id event)
        (Method.resource (Api.ofProvider provider) event)
  /-- The keys are counted from one. -/
  | apiKey {items : List Json} {n : Nat} {name : String}
      (h : provider.apiKeys = some (.arr items))
      (found : items[n]? = some (.str name)) :
      Generated provider normalized deploymentId
        .apiKey (LogicalId.apiKey (n + 1))
        (ApiKeys.keyResource provider (Api.ofProvider provider)
          deploymentId name)
  | usagePlan (h : provider.apiKeys ≠ none ∨ provider.usagePlan ≠ none) :
      Generated provider normalized deploymentId .usagePlan LogicalId.usagePlan
        (ApiKeys.planResource provider (Api.ofProvider provider) deploymentId)
  | usagePlanKey {items : List Json} {n : Nat}
      (h : provider.apiKeys = some (.arr items)) (bound : n < items.length) :
      Generated provider normalized deploymentId
        .usagePlanKey (LogicalId.usagePlanKey (n + 1))
        (ApiKeys.bindingResource (n + 1))

namespace Generated

variable {provider : Provider} {normalized : Normalized} {deploymentId : String}
  {kind : Kind} {id : String} {value : Json}

theorem ofKind (h : Generated provider normalized deploymentId kind id value) :
    OfKind kind id := by
  cases h with
  | restApi => exact .restApi
  | resource => exact .resource _
  | preflight => exact .method _ .options
  | role => exact .role _
  | method => exact .method _ _
  | apiKey => exact .apiKey _
  | usagePlan => exact .usagePlan
  | usagePlanKey => exact .usagePlanKey _

theorem early_or_late
    (h : Generated provider normalized deploymentId kind id value) :
    Compile.EarlyKind kind ∨ Compile.LateKind kind := by
  cases h <;> decide

end Generated

/-! ## The stages before the deployment -/

theorem RestApi.mem_stage_iff {provider : Provider}
    {fragment : Fragment} {id : String} {value : Json}
    (h : RestApi.stage provider = .ok fragment) :
    (id, value) ∈ fragment.resources ↔ provider.gateway.restApiId = none ∧
      ∃ type, RestApi.endpointType provider = .ok type ∧
        id = LogicalId.restApi ∧
        value = RestApi.resource provider type := by
  unfold RestApi.stage Provider.usesExistingApi at h
  cases hid : provider.gateway.restApiId with
  | some existing =>
      rw [hid] at h
      obtain rfl := Except.ok.inj h
      simp [Fragment.empty]
  | none =>
      rw [hid] at h
      obtain ⟨type, htype, rfl⟩ := map_eq_ok.mp h
      simp [htype, Fragment.addResource, Fragment.empty, Fields.set]

theorem PathTree.mem_stage {api : Api} {events : List Event} {id : String}
    {value : Json} (h : (id, value) ∈ (PathTree.stage api events).resources) :
    ∃ path ∈ PathTree.paths events, api.isExisting path = false ∧
      id = LogicalId.resource path ∧ value = PathTree.resource api path := by
  rcases Fields.mem_setAll h with hmem | hmem
  · cases hmem
  · obtain ⟨path, hpath, heq⟩ := List.mem_map.mp hmem
    obtain ⟨hneeded, hmissing⟩ := List.mem_filter.mp hpath
    obtain ⟨rfl, rfl⟩ := Prod.mk.inj heq
    exact ⟨path, hneeded, by simpa using hmissing, rfl, rfl⟩

theorem PathTree.mem_keys_stage {api : Api} {events : List Event}
    {path : String} (needed : path ∈ PathTree.paths events)
    (missing : api.isExisting path = false) :
    LogicalId.resource path ∈
      Fields.keys (PathTree.stage api events).resources := by
  show _ ∈ Fields.keys (Fields.setAll [] _)
  rw [Fields.keys_setAll, FirstSeen.mem_union]
  have hpath : path ∈ (PathTree.paths events).filter fun path =>
      !api.isExisting path :=
    List.mem_filter.mpr ⟨needed, by simpa using missing⟩
  exact Or.inr (Fields.mem_keys_of_mem (List.mem_map_of_mem hpath))

theorem Preflight.mem_stage {api : Api}
    {preflights : Fields CorsPolicy} {id : String} {value : Json}
    (h : (id, value) ∈ (Preflight.stage api preflights).resources) :
    ∃ path policy, (path, policy) ∈ preflights ∧
      id = LogicalId.method path .options ∧
      value = Preflight.resource api path policy := by
  unfold Preflight.stage at h
  rw [Fragment.resources_addMethods] at h
  rcases Fields.mem_setAll h with hmem | hmem
  · cases hmem
  · obtain ⟨⟨path, policy⟩, hentry, heq⟩ := List.mem_map.mp hmem
    obtain ⟨rfl, rfl⟩ := Prod.mk.inj heq
    exact ⟨path, policy, hentry, rfl, rfl⟩

theorem Preflight.mem_keys_stage {api : Api} {preflights : Fields CorsPolicy}
    {path : String} {policy : CorsPolicy} (h : (path, policy) ∈ preflights) :
    LogicalId.method path .options ∈
      Fields.keys (Preflight.stage api preflights).resources := by
  unfold Preflight.stage
  rw [Fragment.resources_addMethods, Fields.keys_setAll, FirstSeen.mem_union]
  have hentry := List.mem_map_of_mem h
    (f := fun entry => (LogicalId.method entry.1 .options,
      Preflight.resource api entry.1 entry.2))
  exact Or.inr (Fields.mem_keys_of_mem hentry)

namespace Compile

variable {provider : Provider} {normalized : Normalized} {restApi : Fragment}
  {id : String} {value : Json}

theorem generated_of_mem_backend {service : Service} (deploymentId : String)
    (h : (id, value) ∈ (Backend.stage (Api.ofProvider provider) normalized
      service).resources) :
    ∃ kind, EarlyKind kind ∧
      Generated provider normalized deploymentId kind id value := by
  rcases Backend.mem_stage h with hmem | hmem
  · obtain ⟨hshared, rfl, rfl⟩ := Backend.mem_roleFragment.mp hmem
    obtain ⟨target, htarget⟩ := List.exists_mem_of_ne_nil _ hshared
    obtain ⟨event, hshares, -⟩ := Backend.mem_sharedTargets.mp htarget
    exact ⟨.role, by decide, .role hshares⟩
  · obtain ⟨event, hevent, rfl, rfl⟩ := Backend.mem_methodFragment hmem
    exact ⟨.method, by decide, .method (Backend.mem_eventsFor.mp hevent).1⟩

theorem generated_of_mem_stages (hapi : RestApi.stage provider = .ok restApi)
    (deploymentId : String) : ∀ fragment ∈ stages provider normalized restApi,
      ∀ id value, (id, value) ∈ fragment.resources →
        ∃ kind, EarlyKind kind ∧
          Generated provider normalized deploymentId kind id value := by
  refine forall_stages ?_ ?_ ?_ fun service id value =>
    generated_of_mem_backend deploymentId
  · intro id value hmem
    obtain ⟨hid, type, htype, rfl, rfl⟩ := (RestApi.mem_stage_iff hapi).mp hmem
    exact ⟨.restApi, by decide, .restApi hid htype⟩
  · intro id value hmem
    obtain ⟨path, hpath, hmissing, rfl, rfl⟩ := PathTree.mem_stage hmem
    obtain ⟨event, hevent, hproper, hinitial⟩ := PathTree.mem_paths.mp hpath
    exact ⟨.resource, by decide, .resource hevent hproper hinitial hmissing⟩
  · intro id value hmem
    obtain ⟨path, policy, hpolicy, rfl, rfl⟩ := Preflight.mem_stage hmem
    exact ⟨.method, by decide, .preflight hpolicy⟩

theorem mem_stages_backend (service : Service) :
    Backend.stage (Api.ofProvider provider) normalized service
      ∈ stages provider normalized restApi := by
  have hservice : service ∈ Service.all := by cases service <;> decide
  exact List.mem_cons_of_mem _ (List.mem_cons_of_mem _ (List.mem_cons_of_mem _
    (List.mem_map_of_mem hservice)))

end Compile

theorem Generated.exists_stage {provider : Provider} {normalized : Normalized}
    {restApi : Fragment} {deploymentId id : String} {kind : Kind} {value : Json}
    (h : Generated provider normalized deploymentId kind id value)
    (early : Compile.EarlyKind kind)
    (hapi : RestApi.stage provider = .ok restApi) :
    ∃ fragment ∈ Compile.stages provider normalized restApi,
      id ∈ Fields.keys fragment.resources := by
  cases h with
  | restApi created htype =>
      have hmem := (RestApi.mem_stage_iff hapi).mpr
        ⟨created, _, htype, rfl, rfl⟩
      exact ⟨restApi, List.mem_cons_self, Fields.mem_keys_of_mem hmem⟩
  | resource mem proper initial missing =>
      exact ⟨_, List.mem_cons_of_mem _ List.mem_cons_self,
        PathTree.mem_keys_stage
          (PathTree.mem_paths.mpr ⟨_, mem, proper, initial⟩) missing⟩
  | preflight mem =>
      exact ⟨_, List.mem_cons_of_mem
        _ (List.mem_cons_of_mem _ List.mem_cons_self),
        Preflight.mem_keys_stage mem⟩
  | @role event service shares =>
      exact ⟨_, Compile.mem_stages_backend service,
        Backend.mem_keys_stage_role.mpr ⟨event, shares⟩⟩
  | @method event mem =>
      have hevent := Backend.mem_eventsFor.mpr ⟨mem, rfl⟩
      exact ⟨_, Compile.mem_stages_backend event.service,
        Backend.mem_keys_stage.mpr
          (Or.inr (Backend.keys_methodFragment _ _ event hevent))⟩
  | apiKey | usagePlan | usagePlanKey => exact absurd early (by decide)

/-! ## The keys and the plan -/

namespace ApiKeys

variable {provider : Provider} {api : Api} {deploymentId id : String}
  {value : Json}

theorem namesIn_eq_ok {items : List Json} {names : List String}
    (h : namesIn items = .ok names) :
    items = names.map .str := by
  induction items generalizing names with
  | nil => rw [← Except.ok.inj h, List.map_nil]
  | cons item rest ih =>
      cases item with
      | str name =>
          obtain ⟨others, hothers, rfl⟩ := map_eq_ok.mp h
          rw [ih hothers, List.map_cons]
      | _ => cases h

/-- The configured keys are the list of their names, unless there are none. -/
theorem names_eq_ok {given : Option Json} {names : List String}
    (h : ApiKeys.names given = .ok names) :
    (given = none ∧ names = []) ∨ given = some (.arr (names.map .str)) := by
  cases given with
  | none => exact Or.inl ⟨rfl, (Except.ok.inj h).symm⟩
  | some value =>
      cases value with
      | arr items => rw [namesIn_eq_ok h]; exact Or.inr rfl
      | _ => cases h

theorem mem_keysFrom {n : Nat} {names : List String} :
    (id, value) ∈ keysFrom provider api deploymentId n names ↔
      ∃ i name, names[i]? = some name ∧ id = LogicalId.apiKey (n + i) ∧
        value = keyResource provider api deploymentId name := by
  induction names generalizing n with
  | nil => simp [keysFrom]
  | cons first rest ih =>
      rw [keysFrom, List.mem_cons, ih]
      refine ⟨?_, ?_⟩
      · rintro (heq | ⟨i, name, hname, rfl, rfl⟩)
        · obtain ⟨rfl, rfl⟩ := Prod.mk.inj heq
          exact ⟨0, first, rfl, rfl, rfl⟩
        · exact ⟨i + 1, name, hname,
            by rw [Nat.add_right_comm, Nat.add_assoc], rfl⟩
      · rintro ⟨i, name, hname, rfl, rfl⟩
        cases i with
        | zero => exact Or.inl (by rw [Option.some.inj hname, Nat.add_zero])
        | succ i =>
            exact Or.inr ⟨i, name, hname,
              by rw [Nat.add_right_comm, Nat.add_assoc], rfl⟩

theorem mem_bindingsFrom {n count : Nat} :
    (id, value) ∈ bindingsFrom n count ↔
      ∃ i < count, id = LogicalId.usagePlanKey (n + i) ∧
        value = bindingResource (n + i) := by
  induction count generalizing n with
  | zero => simp [bindingsFrom]
  | succ count ih =>
      rw [bindingsFrom, List.mem_cons, ih]
      refine ⟨?_, ?_⟩
      · rintro (heq | ⟨i, hi, rfl, rfl⟩)
        · obtain ⟨rfl, rfl⟩ := Prod.mk.inj heq
          exact ⟨0, Nat.succ_pos _, rfl, rfl⟩
        · refine ⟨i + 1, Nat.succ_lt_succ hi, ?_,
            ?_⟩ <;> rw [Nat.add_right_comm, Nat.add_assoc]
      · rintro ⟨i, hi, rfl, rfl⟩
        cases i with
        | zero => exact Or.inl rfl
        | succ i =>
            refine Or.inr ⟨i, Nat.lt_of_succ_lt_succ hi, ?_, ?_⟩ <;>
              rw [Nat.add_right_comm, Nat.add_assoc]

theorem generated_of_mem_stage {normalized : Normalized} {fragment : Fragment}
    (h : stage provider (Api.ofProvider provider) deploymentId = .ok fragment)
    (hmem : (id, value) ∈ fragment.resources) :
    ∃ kind, Compile.LateKind kind ∧
      Generated provider normalized deploymentId kind id value := by
  obtain ⟨names, hnames, rfl⟩ := stage_eq_ok h
  have hmem := (Fields.mem_setAll hmem).resolve_left List.not_mem_nil
  rcases List.mem_append.mp hmem with hmem | hmem
  · obtain ⟨i, name, hname, rfl, rfl⟩ := mem_keysFrom.mp hmem
    rcases names_eq_ok hnames with ⟨-, rfl⟩ | hgiven
    · cases hname
    · rw [Nat.add_comm]
      exact ⟨.apiKey,
        by decide, .apiKey hgiven (by rw [List.getElem?_map, hname]; rfl)⟩
  · split at hmem
    · cases hmem
    · next hsome =>
        rcases List.mem_cons.mp hmem with heq | hmem
        · obtain ⟨rfl, rfl⟩ := Prod.mk.inj heq
          refine ⟨.usagePlan, by decide, .usagePlan ?_⟩
          simpa [Option.isNone_iff_eq_none, imp_iff_not_or] using hsome
        · obtain ⟨i, hi, rfl, rfl⟩ := mem_bindingsFrom.mp hmem
          rcases names_eq_ok hnames with ⟨-, rfl⟩ | hgiven
          · cases hi
          · rw [Nat.add_comm]
            exact ⟨.usagePlanKey,
              by decide, .usagePlanKey hgiven (by rwa [List.length_map])⟩

end ApiKeys

theorem Generated.mem_keys_stage {provider : Provider} {normalized : Normalized}
    {deploymentId id : String} {kind : Kind} {value : Json}
    {fragment : Fragment}
    (h : Generated provider normalized deploymentId kind id value)
    (late : Compile.LateKind kind)
    (hkeys : ApiKeys.stage provider (Api.ofProvider provider) deploymentId
      = .ok fragment) :
    id ∈ Fields.keys fragment.resources := by
  obtain ⟨names, hnames, rfl⟩ := ApiKeys.stage_eq_ok hkeys
  show id ∈ Fields.keys (Fields.setAll [] _)
  rw [Fields.keys_setAll, FirstSeen.mem_union]
  have given : ∀ items, provider.apiKeys = some (.arr items) →
      items = names.map .str := by
    intro items hgiven
    rw [hgiven] at hnames
    exact ApiKeys.namesIn_eq_ok hnames
  have planned : ∀ {entries : Fields Json},
      (provider.apiKeys ≠ none ∨ provider.usagePlan ≠ none) →
      (if provider.apiKeys.isNone ∧ provider.usagePlan.isNone then []
        else entries) = entries :=
    fun hsome => if_neg (by simpa [Option.isNone_iff_eq_none, imp_iff_not_or]
      using hsome)
  refine Or.inr ?_
  cases h with
  | @apiKey items n name hgiven found =>
      obtain rfl := given items hgiven
      rw [List.getElem?_map] at found
      obtain ⟨_, hname, -⟩ := Option.map_eq_some_iff.mp found
      have hentry : (LogicalId.apiKey (1 + n), _) ∈
          ApiKeys.keysFrom provider (Api.ofProvider provider)
            deploymentId 1 names :=
        ApiKeys.mem_keysFrom.mpr ⟨n, _, hname, rfl, rfl⟩
      rw [Nat.add_comm]
      exact Fields.mem_keys_of_mem (List.mem_append_left _ hentry)
  | usagePlan hsome =>
      rw [planned hsome]
      exact Fields.mem_keys_of_mem (List.mem_append_right _ List.mem_cons_self)
  | @usagePlanKey items n hgiven bound =>
      obtain rfl := given items hgiven
      rw [List.length_map] at bound
      have hentry : (LogicalId.usagePlanKey (1 + n), _) ∈
          ApiKeys.bindingsFrom 1 names.length :=
        ApiKeys.mem_bindingsFrom.mpr ⟨n, bound, rfl, rfl⟩
      rw [Nat.add_comm,
        planned (Or.inl (by rw [hgiven]; exact Option.some_ne_none _))]
      exact Fields.mem_keys_of_mem
        (List.mem_append_right _ (List.mem_cons_of_mem _ hentry))
  | _ => exact absurd late (by decide)

end GatewayStack
