import GatewayStack.Proofs.Checks
import GatewayStack.Proofs.Kinds
import GatewayStack.Proofs.Merge

/-!
# A run, stage by stage

A compilation folds a fixed sequence of fragments into a template. This file
takes that sequence apart: which kinds of resources each stage makes, which ids
it tracks, and what the template holds once all of them are in. Most questions
about a compiled template are answered by one of three facts below.

The names of the result are those of the fragments and no others
(`mem_keys_mergeAll`). A look-up under an id that only one fragment has is a
look-up in that fragment (`get?_mergeAll_single`). And a run into an empty
template never finds a deployment, because no stage before the deployment makes
one, so it creates its own (`events_empty_eq_ok`).
-/

namespace GatewayStack

open LogicalId

/-! ## Fragments -/

namespace Fragment

theorem resources_addMethods (fragment : Fragment)
    (entries : List (String × Json)) :
    (fragment.addMethods entries).resources
      = Fields.setAll fragment.resources entries := by
  induction entries generalizing fragment with
  | nil => rfl
  | cons entry rest ih => exact ih _

theorem methodIds_addMethods (fragment : Fragment)
    (entries : List (String × Json)) :
    (fragment.addMethods entries).methodIds
      = fragment.methodIds ++ Fields.keys entries := by
  induction entries generalizing fragment with
  | nil => exact (List.append_nil _).symm
  | cons entry rest ih =>
      obtain ⟨id, resource⟩ := entry
      rw [addMethods, ih, Fields.keys_cons]
      show fragment.methodIds ++ [id] ++ Fields.keys rest = _
      rw [List.append_assoc, List.singleton_append]

end Fragment

namespace Compile

/-! ## Folding fragments in -/

/-- Folds fragments into a template, in order. -/
def mergeAll (template : Template) : List Fragment → Template
  | [] => template
  | fragment :: rest => mergeAll (template.merge fragment) rest

/-- Stages that cannot fail fold their fragments in, one after the other. -/
theorem runStages_map_ok (template : Template) (fragments : List Fragment) :
    (runStages (fragments.map .ok)).run template
      = .ok (fragments.flatMap Fragment.methodIds,
        mergeAll template fragments) := by
  induction fragments generalizing template with
  | nil => rfl
  | cons fragment rest ih =>
      show (do
        let (methodIds, copy) ← (runStages
          (rest.map .ok)).run (template.merge fragment)
        Except.ok (fragment.methodIds ++ methodIds, copy)) = _
      rw [ih]
      rfl

theorem mergeAll_append (template : Template) (a b : List Fragment) :
    mergeAll template (a ++ b) = mergeAll (mergeAll template a) b := by
  induction a generalizing template with
  | nil => rfl
  | cons fragment rest ih => exact ih _

theorem keys_merge (template : Template) (fragment : Fragment) :
    Fields.keys (template.merge fragment).resources
      = FirstSeen.union (Fields.keys template.resources)
        (Fields.keys fragment.resources) :=
  Json.keys_mergeFields _ _

theorem resources_mergeAll (template : Template) (fragments : List Fragment) :
    (mergeAll template fragments).resources
      = Json.mergeEach template.resources
        (fragments.map Fragment.resources) := by
  induction fragments generalizing template with
  | nil => rfl
  | cons fragment rest ih => exact ih _

theorem keys_mergeAll (template : Template) (fragments : List Fragment) :
    Fields.keys (mergeAll template fragments).resources
      = FirstSeen.union (Fields.keys template.resources)
          (fragments.flatMap fun fragment =>
            Fields.keys fragment.resources) := by
  rw [resources_mergeAll, Json.keys_mergeEach, List.flatMap_map]

theorem mem_keys_mergeAll {template : Template} {fragments : List Fragment}
    {id : String} :
    id ∈ Fields.keys (mergeAll template fragments).resources ↔
      id ∈ Fields.keys template.resources ∨
        ∃ fragment ∈ fragments, id ∈ Fields.keys fragment.resources := by
  induction fragments generalizing template with
  | nil => simp [mergeAll]
  | cons fragment rest ih =>
      rw [mergeAll, ih, keys_merge, FirstSeen.mem_union]
      simp [or_assoc]

theorem nodup_keys_mergeAll {template : Template}
    (h : (Fields.keys template.resources).Nodup) (fragments : List Fragment) :
    (Fields.keys (mergeAll template fragments).resources).Nodup := by
  induction fragments generalizing template with
  | nil => exact h
  | cons fragment rest ih =>
      rw [mergeAll]
      apply ih
      rw [keys_merge]
      exact FirstSeen.nodup_union h

theorem kinded_mergeAll {kinds : Kind → Prop} {template : Template}
    {fragments : List Fragment} (h : Kinded kinds template.resources)
    (hall : ∀ fragment ∈ fragments, Kinded kinds fragment.resources) :
    Kinded kinds (mergeAll template fragments).resources := by
  induction fragments generalizing template with
  | nil => exact h
  | cons fragment rest ih =>
      have hfirst := hall fragment List.mem_cons_self
      exact ih (h.mergeFields hfirst) fun f hf =>
        hall f (List.mem_cons_of_mem _ hf)

theorem get?_mergeAll_of_not_mem {template : Template}
    {fragments : List Fragment} {id : String}
    (h : ∀ fragment ∈ fragments, id ∉ Fields.keys fragment.resources) :
    Fields.get? (mergeAll template fragments).resources id
      = Fields.get? template.resources id := by
  induction fragments generalizing template with
  | nil => rfl
  | cons fragment rest ih =>
      rw [mergeAll, ih fun f hf => h f (List.mem_cons_of_mem _ hf)]
      exact Json.get?_mergeFields_of_not_mem (h fragment List.mem_cons_self)

/-- What each fragment that has an id has under it, in order. -/
def versions (fragments : List Fragment) (id : String) : List Json :=
  fragments.filterMap fun fragment => Fields.get? fragment.resources id

@[simp] theorem versions_nil (id : String) : versions [] id = [] := rfl

theorem versions_cons (fragment : Fragment) (rest : List Fragment)
    (id : String) :
    versions (fragment :: rest) id
      = (Fields.get? fragment.resources id).toList ++ versions rest id := by
  rw [versions, List.filterMap_cons]
  cases Fields.get? fragment.resources id <;> rfl

theorem versions_append (front back : List Fragment) (id : String) :
    versions (front ++ back) id = versions front id ++ versions back id :=
  List.filterMap_append

theorem exists_mem_of_versions {fragments : List Fragment} {id : String}
    {version : Json} (h : version ∈ versions fragments id) :
    ∃ fragment ∈ fragments, (id, version) ∈ fragment.resources := by
  obtain ⟨fragment, hfragment, hget⟩ := List.mem_filterMap.mp h
  exact ⟨fragment, hfragment, Fields.mem_of_get? hget⟩

/-- A look-up after folding fragments in finds their versions merged, one by
one, onto what was there. -/
theorem get?_mergeAll {template : Template} {fragments : List Fragment}
    (distinct : ∀ fragment ∈ fragments, Fields.Distinct fragment.resources)
    (id : String) :
    Fields.get? (mergeAll template fragments).resources id
      = Json.mergeOnto (Fields.get? template.resources id)
        (versions fragments id) := by
  rw [resources_mergeAll, Json.get?_mergeEach
    (List.forall_mem_map.mpr distinct), List.filterMap_map]
  rfl

/-- A look-up in an empty template after a run, under an id that only one of
the fragments has. -/
theorem get?_mergeAll_single {before after : List Fragment}
    {fragment : Fragment} {id : String}
    (distinct : Fields.Distinct fragment.resources)
    (hbefore : ∀ f ∈ before, id ∉ Fields.keys f.resources)
    (hafter : ∀ f ∈ after, id ∉ Fields.keys f.resources) :
    Fields.get? (mergeAll Template.empty
        (before ++ fragment :: after)).resources id
      = Fields.get? fragment.resources id := by
  rw [mergeAll_append, mergeAll, get?_mergeAll_of_not_mem hafter]
  show Fields.get? (Json.mergeFields _ _) id = _
  rw [Json.get?_mergeFields distinct, get?_mergeAll_of_not_mem hbefore]
  show Option.merge _ (Fields.get? [] id) _ = _
  rw [Fields.get?_nil, Option.merge_none_left]

end Compile

/-! ## What each stage makes -/

theorem RestApi.stage_eq_ok {provider : Provider} {fragment : Fragment}
    (h : RestApi.stage provider = .ok fragment) :
    fragment = Fragment.empty ∨
      ∃ type, fragment = Fragment.empty.addResource LogicalId.restApi
        (RestApi.resource provider type) := by
  unfold RestApi.stage at h
  split at h
  · exact Or.inl (Except.ok.inj h).symm
  · cases htype : RestApi.endpointType provider with
    | error reason => rw [htype] at h; cases h
    | ok type =>
        rw [htype] at h
        exact Or.inr ⟨type, (Except.ok.inj h).symm⟩

theorem RestApi.kinded {provider : Provider} {fragment : Fragment}
    (h : RestApi.stage provider = .ok fragment) :
    Kinded (· = .restApi) fragment.resources := by
  rcases RestApi.stage_eq_ok h with rfl | ⟨type, rfl⟩
  · exact Kinded.nil
  · exact Kinded.nil.set rfl .restApi (hasType_obj (by simp))

theorem RestApi.methodIds_eq_nil {provider : Provider} {fragment : Fragment}
    (h : RestApi.stage provider = .ok fragment) : fragment.methodIds = [] := by
  rcases RestApi.stage_eq_ok h with rfl | ⟨type, rfl⟩ <;> rfl

theorem PathTree.kinded (api : Api) (events : List Event) :
    Kinded (· = .resource) (PathTree.stage api events).resources :=
  Kinded.nil.setAll <| Kinded.map fun path =>
    ⟨.resource, rfl, .resource path, hasType_obj (by simp)⟩

theorem Preflight.kinded (api : Api) (preflights : Fields CorsPolicy) :
    Kinded (· = .method) (Preflight.stage api preflights).resources := by
  unfold Preflight.stage
  rw [Fragment.resources_addMethods]
  exact Kinded.nil.setAll <| Kinded.map fun entry =>
    ⟨.method, rfl, .method entry.1 .options, hasType_obj (by simp)⟩

theorem Backend.kinded_roleFragment (service : Service) (events : List Event) :
    Kinded (· = .role) (Backend.roleFragment service events).resources := by
  unfold Backend.roleFragment
  split
  · exact Kinded.nil
  · exact Kinded.nil.set rfl (.role service) (hasType_obj (by simp))

theorem Backend.kinded_methodFragment (api : Api) (events : List Event) :
    Kinded (· = .method) (Backend.methodFragment api events).resources := by
  unfold Backend.methodFragment
  rw [Fragment.resources_addMethods]
  exact Kinded.nil.setAll <| Kinded.map fun event =>
    ⟨.method, rfl, .method event.path event.verb, hasType_obj (by simp)⟩

theorem Backend.kinded (api : Api) (normalized : Normalized)
    (service : Service) :
    Kinded (fun kind => kind = .role ∨ kind = .method)
      (Backend.stage api normalized service).resources := by
  refine Kinded.setAll ?_ ?_
  · exact (Backend.kinded_roleFragment service _).mono
      fun kind hkind => Or.inl hkind
  · exact (Backend.kinded_methodFragment api _).mono
      fun kind hkind => Or.inr hkind

theorem ApiKeys.kinded_keysFrom (provider : Provider) (api : Api)
    (deploymentId : String) (n : Nat) (names : List String) :
    Kinded (· = .apiKey) (ApiKeys.keysFrom provider api deploymentId
      n names) := by
  induction names generalizing n with
  | nil => exact Kinded.nil
  | cons name rest ih =>
      exact (ih (n + 1)).cons rfl (.apiKey n) (hasType_obj (by simp))

theorem ApiKeys.kinded_bindingsFrom (n count : Nat) :
    Kinded (· = .usagePlanKey) (ApiKeys.bindingsFrom n count) := by
  induction count generalizing n with
  | zero => exact Kinded.nil
  | succ count ih =>
      exact (ih (n + 1)).cons rfl (.usagePlanKey n) (hasType_obj (by simp))

theorem ApiKeys.stage_eq_ok {provider : Provider} {api : Api}
    {deploymentId : String} {fragment : Fragment}
    (h : ApiKeys.stage provider api deploymentId = .ok fragment) :
    ∃ names, ApiKeys.names provider.apiKeys = .ok names ∧
      fragment = Fragment.empty.addResources
        (ApiKeys.keysFrom provider api deploymentId 1 names ++
          if provider.apiKeys.isNone ∧ provider.usagePlan.isNone then []
          else (LogicalId.usagePlan,
            ApiKeys.planResource provider api deploymentId)
            :: ApiKeys.bindingsFrom 1 names.length) := by
  unfold ApiKeys.stage at h
  cases hnames : ApiKeys.names provider.apiKeys with
  | error reason => rw [hnames] at h; cases h
  | ok names =>
      rw [hnames] at h
      exact ⟨names, rfl, (Except.ok.inj h).symm⟩

/-- The kinds of resources that the stage behind the deployment makes. -/
def Compile.LateKind (kind : Kind) : Prop :=
  kind = .apiKey ∨ kind = .usagePlan ∨ kind = .usagePlanKey

instance : DecidablePred Compile.LateKind :=
  fun kind => inferInstanceAs (Decidable (kind = _ ∨ kind = _ ∨ kind = _))

theorem ApiKeys.kinded {provider : Provider} {api : Api} {deploymentId : String}
    {fragment : Fragment}
    (h : ApiKeys.stage provider api deploymentId = .ok fragment) :
    Kinded Compile.LateKind fragment.resources := by
  obtain ⟨names, -, rfl⟩ := ApiKeys.stage_eq_ok h
  refine Kinded.nil.setAll (Kinded.append ?_ ?_)
  · exact (ApiKeys.kinded_keysFrom provider api deploymentId 1 names).mono
      fun kind hkind => Or.inl hkind
  · split
    · exact Kinded.nil
    · refine Kinded.cons (Or.inr (Or.inl rfl))
        .usagePlan (hasType_obj (by simp)) ?_
      exact (ApiKeys.kinded_bindingsFrom 1 names.length).mono
        fun kind hkind => Or.inr (Or.inr hkind)

/-! ## No stage writes an id twice -/

namespace Fragment

theorem distinct_addResource {fragment : Fragment}
    (h : Fields.Distinct fragment.resources) (id : String) (resource : Json) :
    Fields.Distinct (fragment.addResource id resource).resources :=
  Fields.distinct_setAll h [(id, resource)]

theorem distinct_addMethods (entries : List (String × Json)) :
    Fields.Distinct (empty.addMethods entries).resources := by
  rw [resources_addMethods]
  exact Fields.distinct_setAll Fields.distinct_nil entries

end Fragment

theorem RestApi.distinct {provider : Provider} {fragment : Fragment}
    (h : RestApi.stage provider = .ok fragment) :
    Fields.Distinct fragment.resources := by
  rcases RestApi.stage_eq_ok h with rfl | ⟨type, rfl⟩
  · exact Fields.distinct_nil
  · exact Fragment.distinct_addResource Fields.distinct_nil _ _

theorem PathTree.distinct_stage (api : Api) (events : List Event) :
    Fields.Distinct (PathTree.stage api events).resources :=
  Fields.distinct_setAll Fields.distinct_nil _

theorem Backend.distinct_stage (api : Api) (normalized : Normalized)
    (service : Service) :
    Fields.Distinct (Backend.stage api normalized service).resources := by
  refine Fields.distinct_setAll ?_ _
  unfold Backend.roleFragment
  split
  · exact Fields.distinct_nil
  · exact Fragment.distinct_addResource Fields.distinct_nil _ _

theorem ApiKeys.distinct {provider : Provider} {api : Api}
    {deploymentId : String} {fragment : Fragment}
    (h : ApiKeys.stage provider api deploymentId = .ok fragment) :
    Fields.Distinct fragment.resources := by
  obtain ⟨names, -, rfl⟩ := ApiKeys.stage_eq_ok h
  exact Fields.distinct_setAll Fields.distinct_nil _

/-! ## A run into an empty template -/

/-- A deployment of its own, with the output that comes with it. -/
def Deployment.creation (provider : Provider) (api : Api)
    (methodIds : List String) : Fragment :=
  (Fragment.empty.addResource (LogicalId.deployment provider.token)
    (Deployment.resource provider api methodIds)).addOutput
      Deployment.outputName (Deployment.output provider api)

theorem Deployment.kinded_creation (provider : Provider) (api : Api)
    (methodIds : List String) :
    Kinded (· = .deployment) (Deployment.creation provider api
      methodIds).resources :=
  Kinded.nil.set rfl (.deployment provider.token) (hasType_obj (by simp))

namespace Compile

/-- The fragments before the deployment, given the one that creates the API. -/
def stages (provider : Provider) (normalized : Normalized)
    (restApi : Fragment) : List Fragment :=
  let api := Api.ofProvider provider
  restApi :: PathTree.stage api normalized.events
    :: Preflight.stage api normalized.preflights
    :: Service.all.map (Backend.stage api normalized)

/-- The fragments of every stage before the deployment, in order. -/
def fragments (provider : Provider) (normalized : Normalized) :
    Except Misconfiguration (List Fragment) :=
  (RestApi.stage provider).map (stages provider normalized)

theorem runStages_early (provider : Provider) (normalized : Normalized)
    (template : Template) :
    (runStages (earlyStages provider normalized)).run template
      = (fragments provider normalized).map fun early =>
          (early.flatMap Fragment.methodIds, mergeAll template early) := by
  unfold earlyStages fragments
  cases RestApi.stage provider with
  | error reason => rfl
  | ok restApi =>
      exact runStages_map_ok template (stages provider normalized restApi)

/-- What holds of each stage holds of them all. -/
theorem forall_stages {provider : Provider} {normalized : Normalized}
    {restApi : Fragment} {P : Fragment → Prop} (hapi : P restApi)
    (htree : P (PathTree.stage (Api.ofProvider provider) normalized.events))
    (hpreflight : P (Preflight.stage (Api.ofProvider provider)
      normalized.preflights))
    (hbackend : ∀ service,
      P (Backend.stage (Api.ofProvider provider) normalized service)) :
    ∀ fragment ∈ stages provider normalized restApi, P fragment := by
  intro fragment hmem
  rcases List.mem_cons.mp hmem with rfl | hmem
  · exact hapi
  rcases List.mem_cons.mp hmem with rfl | hmem
  · exact htree
  rcases List.mem_cons.mp hmem with rfl | hmem
  · exact hpreflight
  · obtain ⟨service, -, rfl⟩ := List.mem_map.mp hmem
    exact hbackend service

/-- The kinds of resources that the stages before the deployment make. -/
def EarlyKind (kind : Kind) : Prop :=
  kind = .restApi ∨ kind = .resource ∨ kind = .method ∨ kind = .role

instance : DecidablePred EarlyKind :=
  fun kind => inferInstanceAs (Decidable (kind = _ ∨ kind = _ ∨
    kind = _ ∨ kind = _))

theorem kinded_stages {provider : Provider} {normalized : Normalized}
    {restApi : Fragment} (h : RestApi.stage provider = .ok restApi) :
    ∀ fragment ∈ stages provider normalized restApi,
      Kinded EarlyKind fragment.resources := by
  refine forall_stages ?_ ?_ ?_ fun service => ?_
  · exact (RestApi.kinded h).mono fun kind hkind => Or.inl hkind
  · exact (PathTree.kinded _ _).mono fun kind hkind => Or.inr (Or.inl hkind)
  · exact (Preflight.kinded _ _).mono fun kind hkind =>
      Or.inr (Or.inr (Or.inl hkind))
  · refine (Backend.kinded _ _ service).mono fun kind hkind => ?_
    rcases hkind with rfl | rfl
    · exact Or.inr (Or.inr (Or.inr rfl))
    · exact Or.inr (Or.inr (Or.inl rfl))

theorem distinct_stages {provider : Provider} {normalized : Normalized}
    {restApi : Fragment} (h : RestApi.stage provider = .ok restApi) :
    ∀ fragment ∈ stages provider normalized restApi,
      Fields.Distinct fragment.resources :=
  forall_stages (RestApi.distinct h) (PathTree.distinct_stage _ _)
    (Fragment.distinct_addMethods _) fun service =>
      Backend.distinct_stage _ _ service

/-- No stage before the deployment makes a deployment, so none is found. -/
theorem findOfType?_deployment_eq_none {template : Template}
    (h : Kinded EarlyKind template.resources) :
    template.findOfType? Deployment.type = none := by
  refine List.find?_eq_none.mpr fun entry hmem htype => ?_
  have hkind : OfKind .deployment entry.1 :=
    (h.field_type_iff hmem).mp (of_decide_eq_true htype)
  exact h.not_mem_keys hkind (by decide) (Fields.mem_keys_of_mem hmem)

theorem deployment_stage_of_kinded {provider : Provider} {api : Api}
    {template : Template} {methodIds : List String}
    (h : Kinded EarlyKind template.resources) :
    Deployment.stage provider api template methodIds
      = (Deployment.creation provider api methodIds,
        LogicalId.deployment provider.token) := by
  unfold Deployment.stage
  rw [findOfType?_deployment_eq_none h]
  rfl

/-- The deployment that a run wires its methods to, and its id. -/
def wired (provider : Provider) (normalized : Normalized) (template : Template)
    (restApi : Fragment) : Fragment × String :=
  let early := stages provider normalized restApi
  Deployment.stage provider (Api.ofProvider provider) (mergeAll template early)
    (early.flatMap Fragment.methodIds)

theorem events_eq {provider : Provider} {normalized : Normalized}
    {template : Template} {restApi : Fragment}
    (h : RestApi.stage provider = .ok restApi) :
    events provider normalized template =
      let early := stages provider normalized restApi
      let deployment := wired provider normalized template restApi
      (ApiKeys.stage provider (Api.ofProvider provider) deployment.2).map
      fun keys =>
        (⟨normalized.events.length, early.flatMap Fragment.methodIds,
          some deployment.2⟩, ((mergeAll template early).merge
            deployment.1).merge keys) := by
  unfold events work
  rw [StateT.run_bind, runStages_early]
  unfold fragments
  rw [h]
  have finish (keys : Except Misconfiguration Fragment) (report : Report)
      (staged : Template) :
      (do
        let _ ← fold (← keys)
        return report : Work Report).run staged
      = keys.map fun keys => (report, staged.merge keys) := by
    cases keys <;> rfl
  exact finish _ _ _

theorem events_eq_error {provider : Provider} {normalized : Normalized}
    {template : Template} {reason : Misconfiguration}
    (h : RestApi.stage provider = .error reason) :
    events provider normalized template = .error reason := by
  unfold events work
  rw [StateT.run_bind, runStages_early]
  unfold fragments
  rw [h]
  rfl

/-- What a run over events does to a template. -/
theorem events_eq_ok {provider : Provider} {normalized : Normalized}
    {template compiled : Template} {report : Report}
    (h : events provider normalized template = .ok (report, compiled)) :
    ∃ restApi keys, RestApi.stage provider = .ok restApi ∧
      ApiKeys.stage provider (Api.ofProvider provider)
        (wired provider normalized template restApi).2 = .ok keys ∧
      report = ⟨normalized.events.length,
        (stages provider normalized restApi).flatMap Fragment.methodIds,
        some (wired provider normalized template restApi).2⟩ ∧
      compiled = mergeAll template (stages provider normalized restApi ++
        [(wired provider normalized template restApi).1, keys]) := by
  cases hapi : RestApi.stage provider with
  | error reason =>
      rw [events_eq_error hapi] at h
      cases h
  | ok restApi =>
      rw [events_eq hapi] at h
      obtain ⟨keys, hkeys, h⟩ := map_eq_ok.mp h
      obtain ⟨rfl, rfl⟩ := Prod.mk.inj h
      refine ⟨restApi, keys, rfl, hkeys, rfl, ?_⟩
      rw [mergeAll_append]
      rfl

/-- A run into an empty template makes a deployment of its own. -/
theorem wired_empty {provider : Provider} {normalized : Normalized}
    {restApi : Fragment} (h : RestApi.stage provider = .ok restApi) :
    wired provider normalized Template.empty restApi
      = (Deployment.creation provider (Api.ofProvider provider)
          ((stages provider normalized restApi).flatMap Fragment.methodIds),
        LogicalId.deployment provider.token) :=
  deployment_stage_of_kinded (kinded_mergeAll Kinded.nil (kinded_stages h))

/-- What a run over events makes of an empty template. -/
theorem events_empty_eq_ok {provider : Provider} {normalized : Normalized}
    {report : Report} {compiled : Template}
    (h : events provider normalized Template.empty = .ok (report, compiled)) :
    ∃ restApi keys, RestApi.stage provider = .ok restApi ∧
      ApiKeys.stage provider (Api.ofProvider provider)
          (LogicalId.deployment provider.token)
        = .ok keys ∧
      report = ⟨normalized.events.length,
        (stages provider normalized restApi).flatMap Fragment.methodIds,
        some (LogicalId.deployment provider.token)⟩ ∧
      compiled = mergeAll Template.empty (stages provider normalized restApi ++
        [Deployment.creation provider (Api.ofProvider provider)
          ((stages provider normalized restApi).flatMap Fragment.methodIds),
          keys]) := by
  obtain ⟨restApi, keys, hapi, hkeys, hreport, hcompiled⟩ := events_eq_ok h
  rw [wired_empty hapi] at hkeys hreport hcompiled
  exact ⟨restApi, keys, hapi, hkeys, hreport, hcompiled⟩

/-- Every resource of a run into an empty template is of the kind that its id
names. -/
theorem kinded_events_empty {provider : Provider} {normalized : Normalized}
    {report : Report} {compiled : Template}
    (h : events provider normalized Template.empty = .ok (report, compiled)) :
    Kinded (fun _ => True) compiled.resources := by
  obtain ⟨restApi, keys, hapi, hkeys, -, rfl⟩ := events_empty_eq_ok h
  refine kinded_mergeAll Kinded.nil fun fragment hmem => ?_
  rcases List.mem_append.mp hmem with hmem | hmem
  · exact (kinded_stages hapi fragment hmem).mono fun _ _ => trivial
  rcases List.mem_cons.mp hmem with rfl | hmem
  · exact (Deployment.kinded_creation _ _ _).mono fun _ _ => trivial
  · rw [List.mem_singleton.mp hmem]
    exact (ApiKeys.kinded hkeys).mono fun _ _ => trivial

theorem nodup_keys_events_empty {provider : Provider} {normalized : Normalized}
    {report : Report} {compiled : Template}
    (h : events provider normalized Template.empty = .ok (report, compiled)) :
    (Fields.keys compiled.resources).Nodup := by
  obtain ⟨restApi, keys, -, -, -, rfl⟩ := events_empty_eq_ok h
  have fresh : (Fields.keys Template.empty.resources).Nodup := List.nodup_nil
  exact nodup_keys_mergeAll fresh _

theorem run_commit (result : Except CompileError (Report × Template))
    (template : Template) :
    (commit result).run.run template = match result with
      | .ok (report, copy) => (.ok report, copy)
      | .error error => (.error error, template) := by
  cases result <;> rfl

theorem compile_nil (provider : Provider) (template : Template) :
    compile provider [] template = (.ok Report.empty, template) := rfl

/-- The copy takes the place of the template, unless something has failed. -/
theorem compile_eq {provider : Provider} {descriptors : List Json}
    (nonempty : descriptors ≠ []) (template : Template) :
    compile provider descriptors template =
      match Compile.descriptors provider descriptors template with
      | .ok (report, copy) => (.ok report, copy)
      | .error error => (.error error, template) := by
  obtain ⟨descriptor, rest, rfl⟩ := List.exists_cons_of_ne_nil nonempty
  exact run_commit (Compile.descriptors provider (descriptor :: rest) template)
    template

/-- A compilation of at least one descriptor is a run over the events of the
proxies. -/
theorem compile_eq_ok {provider : Provider} {descriptors : List Json}
    {template compiled : Template} {report : Report}
    (nonempty : descriptors ≠ [])
    (h : compile provider descriptors template = (.ok report, compiled)) :
    ∃ proxies, parse descriptors = .ok proxies ∧
      events provider (Normalized.ofProxies proxies) template
        = .ok (report, compiled) := by
  rw [compile_eq nonempty, Compile.descriptors] at h
  cases hparse : parse descriptors with
  | error error =>
      rw [hparse] at h
      cases h
  | ok proxies =>
      simp only [hparse] at h
      cases hevents : events provider (Normalized.ofProxies proxies)
          template with
      | error reason =>
          rw [hevents] at h
          cases h
      | ok result =>
          rw [hevents] at h
          cases h
          exact ⟨proxies, rfl, hevents⟩

/-- Two compilations of a list are the same if their runs are. -/
theorem compile_congr {a b : Provider} {descriptors : List Json}
    {template : Template} (h : ∀ proxies, parse descriptors = .ok proxies →
      events a (Normalized.ofProxies proxies) template
        = events b (Normalized.ofProxies proxies) template) :
    compile a descriptors template = compile b descriptors template := by
  have hruns : Compile.descriptors a descriptors template
      = Compile.descriptors b descriptors template := by
    unfold Compile.descriptors
    split
    · rfl
    · next proxies hparse => rw [h proxies hparse]
  by_cases empty : descriptors = []
  · rw [empty, compile_nil, compile_nil]
  · rw [compile_eq empty, compile_eq empty, hruns]

end Compile

end GatewayStack
