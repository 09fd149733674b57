import GatewayStack.Proofs.Contents
import GatewayStack.Proofs.Repetition

/-!
# What the token of a build is used for

A run puts its token into the id of a deployment that it makes, and nowhere
else. When it finds a deployment in the template it does not use it at all. When
it finds none, two runs with different tokens differ in that id: it is the name
of one resource, and the API keys and the usage plan depend on it.

The two documents are compared entry by entry. For this a merge is written out
as a list (`Json.mergeFields_eq`): the older entries in place, each with what is
merged into it, and the new ones behind them. The deployment is one of the older
ones, because its id was in no template; the keys and the plan may be either,
and what they depend on is set in either case (`Json.merge_dependingOn`).
-/

namespace GatewayStack

open LogicalId

/-! ## Depending on an id -/

namespace Json

/-- The resource with an id as what it depends on. -/
def dependingOn (id : String) : Json → Json
  | .obj fields => .obj (Fields.set fields "DependsOn" (.str id))
  | value => value

theorem merge_dependingOn (old : Json) {fields : Fields Json}
    (distinct : Fields.Distinct fields)
    (hmem : "DependsOn" ∈ Fields.keys fields) (id : String) :
    merge old (dependingOn id (.obj fields))
      = dependingOn id (merge old (.obj fields)) := by
  rcases plain_or_obj old with plain | ⟨older, rfl⟩
  · rw [merge_onto_plain _ plain, merge_onto_plain _ plain]
  · rw [dependingOn, merge_obj, merge_obj, dependingOn,
      mergeFields_set rfl distinct hmem]

/-- What a merge lays over a resource that depends on an id depends on that. -/
theorem field?_dependsOn_merge (old : Json) {fields : Fields Json} {id : String}
    (distinct : Fields.Distinct fields)
    (h : Fields.get? fields "DependsOn" = some (.str id)) :
    (merge old (.obj fields)).field? "DependsOn" = some (.str id) := by
  rcases plain_or_obj old with plain | ⟨older, rfl⟩
  · rw [merge_onto_plain _ plain]
    exact h
  · rw [field?_merge_obj distinct, h]
    cases Fields.get? older "DependsOn" with
    | none => rfl
    | some value => exact congrArg some (merge_of_plain value rfl)

end Json

/-! ## What depends on the deployment -/

namespace Provider

/-- The resources that are made to depend on the deployment: the API keys
and the plan. -/
def dependents (provider : Provider) : List String :=
  (List.range' 1 provider.keyCount).map LogicalId.apiKey ++
    if provider.apiKeys.isSome ∨ provider.usagePlan.isSome then
      [LogicalId.usagePlan] else []

/-- A resource, made to depend on another deployment if it is one of them. -/
def rewired (provider : Provider) (deploymentId id : String)
    (value : Json) : Json :=
  if id ∈ provider.dependents then Json.dependingOn deploymentId value
  else value

/-- What a run with another token has for an entry of a document. -/
def retokened (provider : Provider) (i j : String) (entry : String × Json) :
    String × Json :=
  if entry.1 = LogicalId.deployment i then (LogicalId.deployment j, entry.2)
  else (entry.1, provider.rewired (LogicalId.deployment j) entry.1 entry.2)

variable {provider : Provider}

theorem kind_of_mem_dependents {id : String} (h : id ∈ provider.dependents) :
    OfKind .apiKey id ∨ OfKind .usagePlan id := by
  rcases List.mem_append.mp h with h | h
  · obtain ⟨n, -, rfl⟩ := List.mem_map.mp h
    exact Or.inl (.apiKey n)
  · split at h
    · rw [List.mem_singleton.mp h]
      exact Or.inr .usagePlan
    · cases h

theorem apiKey_mem_dependents {n : Nat} (hfrom : 1 ≤ n)
    (hto : n < 1 + provider.keyCount) :
    LogicalId.apiKey n ∈ provider.dependents :=
  List.mem_append_left _ (List.mem_map_of_mem
    (List.mem_range'_1.mpr ⟨hfrom, hto⟩))

theorem mem_keyIds_of_mem_dependents {id : String}
    (h : id ∈ provider.dependents) :
    id ∈ provider.keyIds := by
  unfold keyIds
  rcases List.mem_append.mp h with h | h
  · exact List.mem_append_left _ h
  · split at h
    · next hplan =>
        rw [if_pos hplan, List.mem_singleton.mp h]
        exact List.mem_append_right _ List.mem_cons_self
    · cases h

end Provider

namespace ApiKeys

variable {provider : Provider} {api : Api} {deploymentId : String}

theorem keysFrom_rewired (other : String) {n : Nat} {names : List String}
    (hfrom : 1 ≤ n) (hto : n + names.length = 1 + provider.keyCount) :
    keysFrom provider api other n names
      = Fields.mapEntries (provider.rewired other)
        (keysFrom provider api deploymentId n names) := by
  induction names generalizing n with
  | nil => rfl
  | cons name rest ih =>
      rw [List.length_cons] at hto
      have hmem : LogicalId.apiKey n ∈ provider.dependents :=
        Provider.apiKey_mem_dependents hfrom (by omega)
      have hvalue : keyResource provider api other name = provider.rewired other
          (LogicalId.apiKey n) (keyResource provider api
            deploymentId name) := by
        rw [Provider.rewired, if_pos hmem]
        rfl
      rw [keysFrom, keysFrom, ih (by omega) (by omega), hvalue]
      rfl

theorem usagePlanKey_not_mem_dependents (n : Nat) :
    LogicalId.usagePlanKey n ∉ provider.dependents := by
  intro hmem
  rcases Provider.kind_of_mem_dependents hmem with h | h
  · exact absurd ((OfKind.usagePlanKey n).unique h) (by decide)
  · exact absurd ((OfKind.usagePlanKey n).unique h) (by decide)

theorem bindingsFrom_rewired (other : String) (n count : Nat) :
    Fields.mapEntries (provider.rewired other) (bindingsFrom n count)
      = bindingsFrom n count := by
  induction count generalizing n with
  | zero => rfl
  | succ count ih =>
      rw [bindingsFrom]
      show (_, provider.rewired other _ _) ::
        Fields.mapEntries (provider.rewired other) _ = _
      rw [ih, Provider.rewired, if_neg (usagePlanKey_not_mem_dependents n)]

theorem entries_rewired (other : String) {names : List String}
    (h : ApiKeys.names provider.apiKeys = .ok names) :
    entries provider api other names
      = Fields.mapEntries (provider.rewired other)
        (entries provider api deploymentId names) := by
  have hkeys : keysFrom provider api other 1 names
      = Fields.mapEntries (provider.rewired other)
        (keysFrom provider api deploymentId 1 names) :=
    keysFrom_rewired other (Nat.le_refl 1) (congrArg (1 + ·) (length_names h))
  unfold entries
  rw [hkeys, Fields.mapEntries, Fields.mapEntries, List.map_append]
  refine congrArg (List.append _) ?_
  split
  · rfl
  · next hplan =>
      have hmem : LogicalId.usagePlan ∈ provider.dependents := by
        refine List.mem_append_right _ ?_
        rw [if_pos (plan_iff.mp hplan)]
        exact List.mem_singleton_self _
      have hvalue : planResource provider api other = provider.rewired other
          LogicalId.usagePlan (planResource provider api deploymentId) := by
        rw [Provider.rewired, if_pos hmem]
        rfl
      rw [List.map_cons, ← hvalue]
      exact congrArg (_ :: ·) (bindingsFrom_rewired other 1 names.length).symm

/-- For another deployment the stage makes the same, depending on that one. -/
theorem stage_rewired {keys : Fragment}
    (h : stage provider api deploymentId = .ok keys) (other : String) :
    stage provider api other = .ok { keys with
      resources := Fields.mapEntries (provider.rewired other)
          keys.resources } := by
  obtain ⟨names, hnames, rfl⟩ := stage_eq_ok h
  unfold stage
  rw [hnames]
  refine congrArg (fun resources => Except.ok (Fragment.mk resources [] [])) ?_
  show Fields.setAll [] (entries provider api other names)
    = Fields.mapEntries _ (Fields.setAll []
      (entries provider api deploymentId names))
  rw [Fields.mapEntries_setAll, entries_rewired other hnames]
  rfl

/-- Each of the resources that depend on the deployment is made, with
that as a field. -/
theorem exists_dependent {keys : Fragment}
    (h : stage provider api deploymentId = .ok keys) {id : String}
    (hmem : id ∈ provider.dependents) :
    ∃ fields, Fields.get? keys.resources id = some (.obj fields) ∧
      Fields.Distinct fields ∧
      Fields.get? fields "DependsOn" = some (.str deploymentId) := by
  have hkey : id ∈ Fields.keys keys.resources := by
    rw [keys_stage h, FirstSeen.mem_distinct]
    exact Provider.mem_keyIds_of_mem_dependents hmem
  obtain ⟨names, -, rfl⟩ := stage_eq_ok h
  obtain ⟨value, hvalue⟩ := Option.ne_none_iff_exists'.mp
    (mt Fields.get?_eq_none_iff.mp (not_not.mpr hkey))
  have hentry := (Fields.mem_setAll (Fields.mem_of_get? hvalue)).resolve_left
    List.not_mem_nil
  rw [hvalue]
  rcases List.mem_append.mp hentry with hentry | hentry
  · obtain ⟨n, name, -, -, rfl⟩ := mem_keysFrom.mp hentry
    exact ⟨_, rfl, by simp [Fields.Distinct], rfl⟩
  · split at hentry
    · cases hentry
    rcases List.mem_cons.mp hentry with heq | hentry
    · obtain ⟨-, rfl⟩ := Prod.mk.inj heq
      exact ⟨_, rfl, by simp [Fields.Distinct], rfl⟩
    · obtain ⟨n, -, rfl, -⟩ := mem_bindingsFrom.mp hentry
      exact absurd hmem (usagePlanKey_not_mem_dependents _)

/-- They depend on it whatever they are merged into. -/
theorem exists_merged_dependent {keys : Fragment}
    (h : stage provider api deploymentId = .ok keys) {id : String}
    (hmem : id ∈ provider.dependents) (older : Fields Json) : ∃ value,
      Fields.get? (Json.mergeFields older keys.resources) id = some value ∧
        value.field? "DependsOn" = some (.str deploymentId) := by
  obtain ⟨fields, hfields, hdistinct, hdepends⟩ := exists_dependent h hmem
  rw [Json.get?_mergeFields (distinct h), hfields]
  cases Fields.get? older id with
  | none => exact ⟨_, rfl, hdepends⟩
  | some old => exact ⟨_, rfl, Json.field?_dependsOn_merge old
    hdistinct hdepends⟩

end ApiKeys

/-! ## Two documents entry by entry -/

namespace Provider

variable {provider : Provider} {i j : String}

theorem retokened_deployment (made : Json) : provider.retokened i j
    (LogicalId.deployment i, made) = (LogicalId.deployment j, made) :=
  if_pos rfl

theorem retokened_of_ne {entry : String × Json}
    (h : entry.1 ≠ LogicalId.deployment i) :
    provider.retokened i j entry
      = (entry.1, provider.rewired (LogicalId.deployment j) entry.1 entry.2) :=
  if_neg h

theorem merge_rewired {deploymentId id : String} {new : Json} (old : Json)
    (h : id ∈ provider.dependents → ∃ fields,
      new = .obj fields ∧ Fields.Distinct fields ∧
      "DependsOn" ∈ Fields.keys fields) :
    Json.merge old (provider.rewired deploymentId id new)
      = provider.rewired deploymentId id (Json.merge old new) := by
  unfold rewired
  split
  · next hmem =>
      obtain ⟨fields, rfl, distinct, hfield⟩ := h hmem
      exact Json.merge_dependingOn old distinct hfield deploymentId
  · rfl

variable {staged keys : Fields Json}

/-- What is merged into a resource that was there before. -/
theorem updated_retokened {entry : String × Json}
    (hne : entry.1 ≠ LogicalId.deployment i)
    (hdependents : ∀ id ∈ provider.dependents, ∃ fields,
      Fields.get? keys id = some (.obj fields) ∧
      Fields.Distinct fields ∧ "DependsOn" ∈ Fields.keys fields) :
    Json.updated (Fields.mapEntries
        (provider.rewired (LogicalId.deployment j)) keys) entry
      = provider.retokened i j (Json.updated keys entry) := by
  unfold Json.updated
  rw [Fields.get?_mapEntries]
  cases hnew : Fields.get? keys entry.1 with
  | none =>
      have hother : entry.1 ∉ provider.dependents := fun hmem => by
        obtain ⟨fields, hfields, -⟩ := hdependents _ hmem
        rw [hnew] at hfields
        cases hfields
      show entry = provider.retokened i j entry
      rw [retokened_of_ne hne, rewired, if_neg hother]
  | some new =>
      show (entry.1, Json.merge entry.2 (provider.rewired _ entry.1 new))
        = provider.retokened i j (entry.1, Json.merge entry.2 new)
      have hmerged : provider.retokened i j (entry.1, Json.merge entry.2 new)
          = _ :=
        retokened_of_ne hne
      rw [hmerged]
      refine congrArg (Prod.mk _) (merge_rewired _ fun hmem => ?_)
      obtain ⟨fields, hfields, hrest⟩ := hdependents _ hmem
      rw [hnew] at hfields
      exact ⟨fields, Option.some.inj hfields, hrest⟩

/-- The resources of the stages, a deployment behind them, and then the keys:
with another token, and keys that depend on that deployment, it comes to the
same but for the id. -/
theorem mergeFields_retokened (i j : String) (made : Json)
    (distinct : Fields.Distinct staged) (hkeys : Fields.Distinct keys)
    (fresh : ∀ token, LogicalId.deployment token ∉ Fields.keys staged)
    (late : ∀ token, LogicalId.deployment token ∉ Fields.keys keys)
    (hdependents : ∀ id ∈ provider.dependents, ∃ fields,
      Fields.get? keys id = some (.obj fields) ∧
      Fields.Distinct fields ∧ "DependsOn" ∈ Fields.keys fields) :
    Json.mergeFields (staged ++ [(LogicalId.deployment j, made)])
        (Fields.mapEntries (provider.rewired (LogicalId.deployment j)) keys)
      = (Json.mergeFields (staged ++ [(LogicalId.deployment i, made)]) keys).map
          (provider.retokened i j) := by
  have hdistinct (token : String) :
      Fields.Distinct (staged ++ [(LogicalId.deployment token, made)]) :=
    Fields.distinct_concat distinct (fresh token) made
  have hmapped : Fields.Distinct
      (Fields.mapEntries (provider.rewired (LogicalId.deployment j)) keys) := by
    unfold Fields.Distinct
    rwa [Fields.keys_mapEntries]
  have hne {entries : Fields Json}
      (h : ∀ token, LogicalId.deployment token ∉ Fields.keys entries)
      {entry : String × Json} (hentry : entry ∈ entries) (token : String) :
      entry.1 ≠ LogicalId.deployment token :=
    fun heq => h token (heq ▸ Fields.mem_keys_of_mem hentry)
  have hbefore : staged.map (Json.updated
        (Fields.mapEntries (provider.rewired (LogicalId.deployment j)) keys))
      = (staged.map (Json.updated keys)).map (provider.retokened i j) := by
    rw [List.map_map]
    exact List.map_congr_left fun entry hentry =>
      updated_retokened (hne fresh hentry i) hdependents
  have hnew : (Fields.mapEntries (provider.rewired (LogicalId.deployment j))
        keys).filter
        (fun entry => entry.1 ∉ Fields.keys staged ++ [LogicalId.deployment j])
      = (keys.filter fun entry =>
          entry.1 ∉ Fields.keys staged ++ [LogicalId.deployment i]).map
          (provider.retokened i j) := by
    have hsame : (keys.filter fun entry =>
        entry.1 ∉ Fields.keys staged ++ [LogicalId.deployment j])
          = keys.filter fun entry =>
            entry.1 ∉ Fields.keys staged ++ [LogicalId.deployment i] :=
      List.filter_congr fun entry hentry => by simp [hne late hentry]
    rw [Fields.mapEntries, List.filter_map, ← hsame]
    refine List.map_congr_left fun entry hentry => ?_
    rw [retokened_of_ne (hne late (List.mem_filter.mp hentry).1 i)]
  have hmade : [(LogicalId.deployment j, made)].map (Json.updated
        (Fields.mapEntries (provider.rewired (LogicalId.deployment j)) keys))
      = ([(LogicalId.deployment i, made)].map (Json.updated keys)).map
        (provider.retokened i j) := by
    have hlate : LogicalId.deployment j ∉ Fields.keys
        (Fields.mapEntries (provider.rewired (LogicalId.deployment j))
          keys) := by
      rw [Fields.keys_mapEntries]
      exact late j
    rw [List.map_singleton, List.map_singleton, List.map_singleton,
      Json.updated_of_not_mem hlate, Json.updated_of_not_mem (late i),
      retokened_deployment]
  rw [Json.mergeFields_eq (hdistinct j) hmapped,
    Json.mergeFields_eq (hdistinct i) hkeys, Fields.keys_concat,
    Fields.keys_concat, hnew]
  simp only [List.map_append, hbefore, hmade]

end Provider

/-! ## Two runs -/

namespace Compile

variable {provider : Provider} {normalized : Normalized}
  {template compiled : Template} {report : Report} {restApi : Fragment}
  {descriptors : List Json}

theorem fragments_eq_ok {fragments : List Fragment}
    (h : Compile.fragments provider normalized = .ok fragments) :
    ∃ restApi, RestApi.stage provider = .ok restApi ∧
      fragments = stages provider normalized restApi := by
  obtain ⟨restApi, hapi, rfl⟩ := map_eq_ok.mp h
  exact ⟨restApi, hapi, rfl⟩

/-- What a run is refused for does not depend on the token. -/
theorem compile_token_of_error {proxies : List ServiceProxy} {i : String}
    {error : CompileError} (hparse : parse descriptors = .ok proxies)
    (h : (compile { provider with token := i } descriptors template).1
      = .error error)
    (j : String) : compile { provider with token := i } descriptors template
      = compile { provider with token := j } descriptors template := by
  by_cases empty : descriptors = []
  · subst empty
    rfl
  refine compile_congr fun found hfound => ?_
  rw [hparse] at hfound
  obtain rfl := Except.ok.inj hfound
  cases hevents : events { provider with token := i }
      (Normalized.ofProxies proxies) template with
  | error reason =>
      have hreason := events_eq_error_iff.mp hevents
      have hother : events { provider with token := j }
            (Normalized.ofProxies proxies) template
          = .error reason := events_eq_error_iff.mpr hreason
      exact hother.symm
  | ok result =>
      rw [compile_of_events empty hparse hevents] at h
      cases h

/-- A deployment after the stages was there before them. -/
theorem findOfType?_staged (distinct : Fields.Distinct template.resources)
    (hapi : RestApi.stage provider = .ok restApi)
    (h : template.findOfType? Deployment.type = none) :
    (mergeAll template (stages provider normalized restApi)).findOfType?
        Deployment.type
      = none := by
  refine List.find?_eq_none.mpr fun entry hentry htype => ?_
  obtain ⟨id, existing⟩ := entry
  have hfound : (mergeAll template
        (stages provider normalized restApi)).resource? id
      = some existing :=
    Fields.get?_of_mem (nodup_keys_mergeAll distinct _) hentry
  have hkept := not_mem_stages_of_deployment hapi hfound
    (of_decide_eq_true htype)
  rw [Template.resource?, get?_mergeAll_of_not_mem hkept] at hfound
  exact List.find?_eq_none.mp h _ (Fields.mem_of_get? hfound) htype

/-- The stages write under no id of a deployment. -/
theorem fresh_staged (hapi : RestApi.stage provider = .ok restApi)
    (fresh : ∀ rest, "ApiGatewayDeployment" ++ rest ∉
      Fields.keys template.resources)
    (token : String) : LogicalId.deployment token ∉
      Fields.keys (mergeAll template
        (stages provider normalized restApi)).resources := by
  intro hmem
  rcases mem_keys_mergeAll.mp hmem with hmem | ⟨fragment, hfragment, hmem⟩
  · exact fresh token hmem
  · exact (kinded_stages hapi fragment hfragment).not_mem_keys
      (.deployment token) (by decide) hmem

/-- A run uses its token for the deployment only. -/
theorem events_token (hapi : RestApi.stage provider = .ok restApi)
    (token : String) :
    events { provider with token } normalized template =
      let early := stages provider normalized restApi
      let deployment := wired { provider with token } normalized
        template restApi
      (ApiKeys.stage provider (Api.ofProvider provider) deployment.2).map
      fun keys =>
        (⟨normalized.events.length, early.flatMap Fragment.methodIds,
          some deployment.2⟩, ((mergeAll template early).merge
            deployment.1).merge keys) := by
  have hapi' : RestApi.stage { provider with token } = .ok restApi := hapi
  rw [events_eq hapi']
  exact congrArg (Except.map _) (keys_token provider token _ _)

/-- A run that finds a deployment does not use it at all. -/
theorem wired_of_found
      (h : (mergeAll template (stages provider normalized restApi)).findOfType?
        Deployment.type ≠ none) (token : String) :
    wired { provider with token } normalized template restApi
      = wired provider normalized template restApi := by
  obtain ⟨entry, hfound⟩ := Option.ne_none_iff_exists'.mp h
  show Deployment.stage { provider with token } _ (mergeAll template
    (stages provider normalized restApi)) _ = Deployment.stage provider
    _ (mergeAll template (stages provider normalized restApi)) _
  unfold Deployment.stage
  rw [hfound]
  rfl

/-- A run that finds none makes one, under an id with its token. -/
theorem wired_of_none
      (h : (mergeAll template (stages provider normalized restApi)).findOfType?
        Deployment.type = none) (token : String) :
    wired { provider with token } normalized template restApi
      = (Deployment.creation { provider with token } (Api.ofProvider provider)
          ((stages provider normalized restApi).flatMap Fragment.methodIds),
        LogicalId.deployment token) := by
  show Deployment.stage { provider with token } _ (mergeAll template
    (stages provider normalized restApi)) _ = _
  unfold Deployment.stage
  rw [h]
  rfl

/-- Two runs that make a deployment, with one token and with another. -/
theorem events_retokened {i : String}
    (distinct : Fields.Distinct template.resources)
    (hapi : RestApi.stage provider = .ok restApi)
    (hnone : (mergeAll template
      (stages provider normalized restApi)).findOfType? Deployment.type = none)
    (fresh : ∀ rest, "ApiGatewayDeployment" ++ rest ∉
      Fields.keys template.resources)
    (h : events { provider with token := i } normalized template
      = .ok (report, compiled))
    (j : String) :
    report.deploymentId = some (LogicalId.deployment i) ∧
      compiled.resource? (LogicalId.deployment i)
        = some (Deployment.resource provider (Api.ofProvider provider)
          report.methodIds) ∧
      (∀ id ∈ provider.dependents, ∃ value, compiled.resource? id = some value ∧
        value.field? "DependsOn" = some (.str (LogicalId.deployment i))) ∧
      events { provider with token := j } normalized template
        = .ok ({ report with deploymentId := some (LogicalId.deployment j) },
          { compiled with resources :=
            compiled.resources.map (provider.retokened i j) }) := by
  rw [events_token hapi, wired_of_none hnone] at h
  obtain ⟨keys, hkeys, heq⟩ := map_eq_ok.mp h
  obtain ⟨rfl, rfl⟩ := Prod.mk.inj heq
  let methodIds := (stages provider normalized restApi).flatMap
    Fragment.methodIds
  let staged := (mergeAll template
    (stages provider normalized restApi)).resources
  let made := Deployment.resource provider (Api.ofProvider provider) methodIds
  have hstaged : Fields.Distinct staged := nodup_keys_mergeAll distinct _
  have hfree : ∀ token, LogicalId.deployment token ∉ Fields.keys staged :=
    fresh_staged hapi fresh
  have hlate : ∀ token, LogicalId.deployment token ∉
      Fields.keys keys.resources := fun token =>
    (ApiKeys.kinded hkeys).not_mem_keys (.deployment token) (by decide)
  have hresources (token : String) (late : Fields Json) :
      Json.mergeFields (Json.mergeFields staged
          [(LogicalId.deployment token, made)]) late
        = Json.mergeFields (staged ++ [(LogicalId.deployment token, made)])
          late := by
    rw [Json.mergeFields_singleton made (hfree token)]
  refine ⟨rfl, ?_, fun id hid => ?_, ?_⟩
  · show Fields.get? (Json.mergeFields (Json.mergeFields staged [(_, made)])
      keys.resources) _ = _
    rw [hresources, Json.get?_mergeFields_of_not_mem (hlate i),
      Fields.get?_append, Fields.get?_eq_none_iff.mpr (hfree i),
      Fields.get?, if_pos rfl]
    rfl
  · exact ApiKeys.exists_merged_dependent hkeys hid _
  · have hdependents : ∀ id ∈ provider.dependents, ∃ fields,
        Fields.get? keys.resources id = some (.obj fields) ∧
          Fields.Distinct fields ∧
          "DependsOn" ∈ Fields.keys fields := fun id hid => by
      obtain ⟨fields, hfields, hdistinct, hdepends⟩ :=
        ApiKeys.exists_dependent hkeys hid
      exact ⟨fields, hfields, hdistinct,
        Fields.mem_keys_of_mem (Fields.mem_of_get? hdepends)⟩
    have hsame := Provider.mergeFields_retokened i j made hstaged
      (ApiKeys.distinct hkeys) hfree hlate hdependents
    rw [← hresources, ← hresources] at hsame
    rw [events_token hapi, wired_of_none hnone]
    refine (congrArg (Except.map _)
      (ApiKeys.stage_rewired hkeys (LogicalId.deployment j))).trans ?_
    refine congrArg Except.ok (Prod.ext rfl ?_)
    exact congrArg (fun resources => Template.mk _ resources _) hsame

end Compile

/-- Two builds of a configuration whose descriptors are accepted, with tokens of
their own. When nothing is compiled, or the provider is refused, they agree.
When there is a deployment in the template after the stages, they agree as well;
one that is there then was there before. When there is none, and no id that
begins like that of a deployment, each makes a deployment under an id with its
token, the report has that id, and the API keys and the plan depend on it. In
all else they agree, and every resource is in the same place. -/
theorem compile_retokened {provider : Provider} {descriptors : List Json}
    {proxies : List ServiceProxy} {template : Template}
    (distinct : Fields.Distinct template.resources)
    (hparse : parse descriptors = .ok proxies) (i j : String) :
    let run := fun token => compile { provider with token } descriptors template
    let staged := (Compile.fragments provider
      (Normalized.ofProxies proxies)).map (Compile.mergeAll template)
    ((descriptors = [] ∨ ∃ error, (run i).1 = .error error) → run i = run j) ∧
      (∀ after, staged = .ok after →
        (after.findOfType? Deployment.type ≠ none → run i = run j) ∧
        (template.findOfType? Deployment.type = none →
          after.findOfType? Deployment.type = none)) ∧
      ∀ after report compiled, staged = .ok after →
        after.findOfType? Deployment.type = none →
        (∀ rest, "ApiGatewayDeployment" ++ rest ∉
          Fields.keys template.resources) →
        descriptors ≠ [] → run i = (.ok report, compiled) →
        report.deploymentId = some ("ApiGatewayDeployment" ++ i) ∧
        (compiled.resource? ("ApiGatewayDeployment" ++ i)).isSome ∧
        (∀ id ∈ provider.dependents, ∃ value,
          compiled.resource? id = some value ∧
          value.field? "DependsOn"
            = some (.str ("ApiGatewayDeployment" ++ i))) ∧
        run j = (.ok { report with
            deploymentId := some ("ApiGatewayDeployment" ++ j) },
          { compiled with resources :=
            compiled.resources.map (provider.retokened i j) }) := by
  intro run staged
  refine ⟨?_, fun after hafter => ?_,
    fun after report compiled hafter hnone fresh nonempty h => ?_⟩
  · rintro (rfl | ⟨error, herror⟩)
    · rfl
    · exact Compile.compile_token_of_error hparse herror j
  · obtain ⟨fragments, hfragments, rfl⟩ := map_eq_ok.mp hafter
    obtain ⟨restApi, hapi, rfl⟩ := Compile.fragments_eq_ok hfragments
    refine ⟨fun hfound => Compile.compile_congr fun found hother => ?_,
      Compile.findOfType?_staged distinct hapi⟩
    rw [hparse] at hother
    obtain rfl := Except.ok.inj hother
    rw [Compile.events_token hapi i, Compile.events_token hapi j,
      Compile.wired_of_found hfound i, Compile.wired_of_found hfound j]
  · obtain ⟨fragments, hfragments, rfl⟩ := map_eq_ok.mp hafter
    obtain ⟨restApi, hapi, rfl⟩ := Compile.fragments_eq_ok hfragments
    obtain ⟨found, hother, hevents⟩ := Compile.compile_eq_ok nonempty h
    rw [hparse] at hother
    obtain rfl := Except.ok.inj hother
    obtain ⟨hid, hmade, hdependents, hrun⟩ :=
      Compile.events_retokened distinct hapi hnone fresh hevents j
    refine ⟨hid, Option.isSome_iff_exists.mpr ⟨_, hmade⟩, hdependents, ?_⟩
    exact Compile.compile_of_events nonempty hparse hrun

/-- Beside a table, with an API key: another token moves the deployment, and
what depends on it. -/
theorem compile_retokened_table :
    let provider :=
      { Provider.ofStage "shop" "dev" "0" with apiKeys := some (.arr ["key"]) }
    ∃ template report compiled proxies, Fields.Distinct template.resources ∧
      parse [topicDescriptor "a" "get"] = .ok proxies ∧
      compile { provider with token := "1" }
          [topicDescriptor "a" "get"] template
        = (.ok report, compiled) ∧
      compile { provider with token := "2" }
          [topicDescriptor "a" "get"] template
        = (.ok { report with deploymentId := some "ApiGatewayDeployment2" },
          { compiled with resources :=
            compiled.resources.map (provider.retokened "1" "2") }) ∧
      "ApiGatewayApiKey1" ∈ provider.dependents := by
  intro provider
  let template : Template :=
    ⟨[], [("Table", .obj [("Type", "AWS::DynamoDB::Table")])], []⟩
  have distinct : Fields.Distinct template.resources := List.nodup_singleton _
  have nonempty : [topicDescriptor "a" "get"] ≠ [] := List.cons_ne_nil _ _
  have accepted : (parse [topicDescriptor "a" "get"]).isOk := by decide
  have fresh : ∀ rest, "ApiGatewayDeployment" ++ rest ∉
      Fields.keys template.resources := by
    intro rest hmem
    have hchars := congrArg String.toList (List.mem_singleton.mp hmem)
    rw [String.toList_append] at hchars
    exact absurd (List.cons.inj hchars).1 (by decide)
  have h := compile_eq_of_report (show (compile { provider with token := "1" }
    [topicDescriptor "a" "get"] template).1
      = .ok ⟨1, ["ApiGatewayMethodAGet"],
        some "ApiGatewayDeployment1"⟩ by decide)
  cases hparse : parse [topicDescriptor "a" "get"] with
  | error error =>
      rw [hparse] at accepted
      cases accepted
  | ok proxies =>
      obtain ⟨-, hstaged, hcreated⟩ :=
        @compile_retokened provider _ _ _ distinct hparse "1" "2"
      have hnone := (hstaged _ rfl).2 (by decide)
      obtain ⟨-, -, -, hrun⟩ := hcreated _ _ _ rfl hnone fresh nonempty h
      exact ⟨template, _, _, proxies, distinct, rfl, h, hrun, by decide⟩

end GatewayStack
