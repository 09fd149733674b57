import GatewayStack.Proofs.Generated

/-!
# What a run leaves alone

A run is compiled into a template that others own too. It may write under the
ids of what it generates and under that of its deployment, and nowhere else
(`compile_frame`). This holds of every template, those included that have
something odd under an id that the run writes to.

Only the deployment needs an argument. A run extends the first deployment that
it finds once its own stages are in, so it has to be shown that what it finds
was there before. It was, because whatever a stage writes has the type of the
stage afterwards, no matter what stood there (`Json.field?_mergeOnto`). What is
a deployment after the stages is under an id that none of them wrote to.
-/

namespace GatewayStack

open LogicalId

/-! ## The template without what was written -/

namespace Compile

theorem head_mergeAll (template : Template) (fragments : List Fragment) :
    (mergeAll template fragments).head = template.head := by
  induction fragments generalizing template with
  | nil => rfl
  | cons fragment rest ih => exact ih _

theorem outputs_mergeAll {template : Template} {fragments : List Fragment}
    (h : ∀ fragment ∈ fragments, fragment.outputs = []) :
    (mergeAll template fragments).outputs = template.outputs := by
  induction fragments generalizing template with
  | nil => rfl
  | cons fragment rest ih =>
      obtain ⟨hfirst, hrest⟩ := List.forall_mem_cons.mp h
      exact (ih hrest).trans (Template.outputs_merge hfirst)

end Compile

/-! ## The type of what was written -/

/-- Merged over anything, a resource has its type. -/
theorem HasType.field_merge {type : String} {new : Json} (h : HasType type new)
    (old : Json) :
    (Json.merge old new).field? "Type" = some (.str type) := by
  rcases Json.plain_or_obj old with plain | ⟨older, rfl⟩
  · rw [Json.merge_onto_plain new plain]
    exact h.field
  · obtain ⟨rest, rfl, untyped⟩ := h
    rw [Json.merge_obj, Json.field?_obj, Json.mergeFields,
      Json.get?_mergeFields_of_not_mem untyped, Fields.get?_set_self]
    split
    · rw [Json.merge_of_plain _ rfl]
    · rfl

theorem Json.field?_mergeOnto {type : String} {versions : List Json}
    (nonempty : versions ≠ []) (h : ∀ version ∈ versions, HasType type version)
    (old : Option Json) :
    ∃ value, mergeOnto old versions = some value ∧
      value.field? "Type" = some (.str type) := by
  induction versions generalizing old with
  | nil => exact absurd rfl nonempty
  | cons version rest ih =>
      obtain ⟨hversion, hrest⟩ := List.forall_mem_cons.mp h
      rw [mergeOnto_cons]
      by_cases last : rest = []
      · subst last
        cases old with
        | none => exact ⟨version, rfl, hversion.field⟩
        | some old => exact ⟨merge old version, rfl, hversion.field_merge old⟩
      · exact ih last hrest _

namespace Compile

variable {provider : Provider} {normalized : Normalized} {template : Template}
  {restApi : Fragment} {id : String}

/-- A deployment is found after the stages only where none of them wrote. -/
theorem not_mem_stages_of_deployment
    (hapi : RestApi.stage provider = .ok restApi) {existing : Json}
    (hget : (mergeAll template (stages provider normalized restApi)).resource?
      id = some existing)
    (htype : existing.field? "Type" = some (.str Deployment.type)) :
    ∀ fragment ∈ stages provider normalized restApi,
      id ∉ Fields.keys fragment.resources := by
  intro fragment hfragment hmem
  obtain ⟨kind, early, hid⟩ :=
    (kinded_stages hapi fragment hfragment).of_mem_keys hmem
  have hversions : versions (stages provider normalized restApi) id ≠ [] := by
    intro hnil
    have hnone := List.filterMap_eq_nil_iff.mp hnil fragment hfragment
    exact Fields.get?_eq_none_iff.mp hnone hmem
  have typed : ∀ version ∈ versions (stages provider normalized restApi) id,
      HasType kind.type version := by
    intro version hversion
    obtain ⟨other, hother, hfound⟩ := exists_mem_of_versions hversion
    obtain ⟨found, -, hkind, hhas⟩ :=
      kinded_stages hapi other hother id version hfound
    rwa [hid.unique hkind]
  obtain ⟨value, hvalue, hfield⟩ :=
    Json.field?_mergeOnto hversions typed (Fields.get? template.resources id)
  rw [Template.resource?, get?_mergeAll (distinct_stages hapi), hvalue] at hget
  obtain rfl := Option.some.inj hget
  have hkind : kind = .deployment :=
    Kind.type_injective
      (Json.str.inj (Option.some.inj (hfield.symm.trans htype)))
  rw [hkind] at early
  revert early
  decide

end Compile

/-! ## The deployment of a run -/

namespace Deployment

variable {provider : Provider} {api : Api} {template : Template}
  {methodIds : List String}

/-- The run extends the first deployment that there is, or makes one. -/
theorem stage_cases (provider : Provider) (api : Api) (template : Template)
    (methodIds : List String) :
    (∃ id existing, template.findOfType? type = some (id, existing) ∧
      stage provider api template methodIds
        = (Fragment.empty.addResource id (extension existing methodIds), id)) ∨
      (template.findOfType? type = none ∧ stage provider api template methodIds
        = (creation provider api methodIds,
          LogicalId.deployment provider.token)) := by
  unfold stage
  split
  · next id existing h => exact Or.inl ⟨id, existing, h, rfl⟩
  · next h => exact Or.inr ⟨h, rfl⟩

theorem exists_resources_stage (provider : Provider) (api : Api)
    (template : Template) (methodIds : List String) :
    ∃ value, (stage provider api template methodIds).1.resources
      = [((stage provider api template methodIds).2, value)] := by
  rcases stage_cases provider api template methodIds with ⟨id, existing, -, h⟩ |
    ⟨-, h⟩
  · rw [h]
    exact ⟨_, rfl⟩
  · rw [h]
    exact ⟨_, rfl⟩

end Deployment

/-! ## What a run writes -/

/-- The run generates something under the id. -/
def Generates (provider : Provider) (normalized : Normalized)
    (deploymentId id : String) : Prop :=
  ∃ kind value, Generated provider normalized deploymentId kind id value

theorem Generates.reserved {provider : Provider} {normalized : Normalized}
    {deploymentId id : String}
    (h : Generates provider normalized deploymentId id) : Reserved id := by
  obtain ⟨kind, value, hgenerated⟩ := h
  exact hgenerated.ofKind.reserved

namespace Compile

variable {provider : Provider} {normalized : Normalized} {template : Template}
  {restApi : Fragment}

/-- A run writes one deployment, the one that it is wired to. -/
theorem exists_resources_wired (provider : Provider) (normalized : Normalized)
    (template : Template) (restApi : Fragment) :
    ∃ value, (wired provider normalized template restApi).1.resources
      = [((wired provider normalized template restApi).2, value)] :=
  Deployment.exists_resources_stage _ _ _ _

theorem exists_mem_keys_iff {keys : Fragment}
    (hapi : RestApi.stage provider = .ok restApi)
    (hkeys : ApiKeys.stage provider (Api.ofProvider provider)
      (wired provider normalized template restApi).2 = .ok keys) (id : String) :
    (∃ fragment ∈ stages provider normalized restApi ++
        [(wired provider normalized template restApi).1, keys],
      id ∈ Fields.keys fragment.resources) ↔
      Generates provider normalized
          (wired provider normalized template restApi).2 id ∨
        id = (wired provider normalized template restApi).2 := by
  obtain ⟨value, hwired⟩ :=
    exists_resources_wired provider normalized template restApi
  refine ⟨fun ⟨fragment, hfragment, hmem⟩ => ?_, fun h => ?_⟩
  · obtain ⟨⟨_, found⟩, hfound, rfl⟩ := List.mem_map.mp hmem
    rcases List.mem_append.mp hfragment with hfragment | hfragment
    · obtain ⟨kind, -, hgenerated⟩ :=
        generated_of_mem_stages hapi _ fragment hfragment _ _ hfound
      exact Or.inl ⟨kind, found, hgenerated⟩
    rcases List.mem_cons.mp hfragment with rfl | hfragment
    · rw [hwired] at hmem
      exact Or.inr (List.mem_singleton.mp hmem)
    · rw [List.mem_singleton.mp hfragment] at hfound
      obtain ⟨kind, -, hgenerated⟩ :=
        ApiKeys.generated_of_mem_stage hkeys hfound
      exact Or.inl ⟨kind, found, hgenerated⟩
  · rcases h with ⟨kind, value, hgenerated⟩ | rfl
    · rcases hgenerated.early_or_late with early | late
      · obtain ⟨fragment, hfragment, hmem⟩ := hgenerated.exists_stage early hapi
        exact ⟨fragment, List.mem_append_left _ hfragment, hmem⟩
      · exact ⟨keys, by simp, hgenerated.mem_keys_stage late hkeys⟩
    · refine ⟨_, List.mem_append_right _ List.mem_cons_self, ?_⟩
      rw [hwired]
      exact List.mem_cons_self

/-- The outputs of a run are those of its deployment. -/
theorem outputs_run {keys : Fragment}
    (hapi : RestApi.stage provider = .ok restApi)
    (hkeys : ApiKeys.stage provider (Api.ofProvider provider)
      (wired provider normalized template restApi).2 = .ok keys) :
    (mergeAll template (stages provider normalized restApi ++
        [(wired provider normalized template restApi).1, keys])).outputs
      = Json.mergeFields template.outputs
        (wired provider normalized template restApi).1.outputs := by
  rw [mergeAll_append, mergeAll, outputs_mergeAll (List.forall_mem_singleton.mpr
    (ApiKeys.outputs hkeys))]
  show Json.mergeFields (mergeAll template _).outputs _ = _
  rw [outputs_mergeAll (outputs_stages hapi)]

theorem wired_cases (provider : Provider) (normalized : Normalized)
    (template : Template) (restApi : Fragment) :
    let early := stages provider normalized restApi
    let methodIds := early.flatMap Fragment.methodIds
    (∃ id existing,
      (mergeAll template early).findOfType? Deployment.type
        = some (id, existing) ∧
        wired provider normalized template restApi
          = (Fragment.empty.addResource id
            (Deployment.extension existing methodIds), id)) ∨
      ((mergeAll template early).findOfType? Deployment.type = none ∧
        wired provider normalized template restApi =
          (Deployment.creation provider (Api.ofProvider provider) methodIds,
            LogicalId.deployment provider.token)) :=
            Deployment.stage_cases _ _ _ _

/-- What the run does when it finds a deployment: the one that it finds was
there before, and but for the keys and the plan nothing touches it except for
what it depends on. -/
theorem extended (distinct : Fields.Distinct template.resources)
    (hapi : RestApi.stage provider = .ok restApi)
    (keys : Fragment) {id : String} {existing : Json}
    (hfound : (mergeAll template
        (stages provider normalized restApi)).findOfType? Deployment.type
      = some (id, existing))
    (hwired : wired provider normalized template restApi
      = (Fragment.empty.addResource id (Deployment.extension existing
        ((stages provider normalized restApi).flatMap Fragment.methodIds)),
        id)) :
    ∃ fields, existing = .obj fields ∧ template.resource? id
      = some (.obj fields) ∧
      Fields.get? fields "Type" = some (.str Deployment.type) ∧
      (id ∉ Fields.keys keys.resources →
        (mergeAll template (stages provider normalized restApi ++
          [(wired provider normalized template restApi).1, keys])).resource? id
          = some (Deployment.withDependencies fields
            (Deployment.dependencies (.obj fields) ++
              ((stages provider normalized restApi).flatMap
                Fragment.methodIds).map Json.str))) := by
  have hdeployment : isDeployment (id, existing) = true :=
    List.find?_some hfound
  obtain ⟨fields, rfl⟩ := exists_obj_of_isDeployment hdeployment
  have htype : (Json.obj fields).field? "Type" = some (.str Deployment.type) :=
    of_decide_eq_true hdeployment
  have staged : (mergeAll template
        (stages provider normalized restApi)).resource? id
      = some (.obj fields) :=
    Fields.get?_of_mem (nodup_keys_mergeAll distinct _)
      (List.mem_of_find?_eq_some hfound)
  have hbefore : template.resource? id = some (.obj fields) := by
    rw [← staged]
    exact (get?_mergeAll_of_not_mem
      (not_mem_stages_of_deployment hapi staged htype)).symm
  refine ⟨fields, rfl, hbefore, htype, fun hlate => ?_⟩
  rw [mergeAll_append, Template.resource?, mergeAll, mergeAll, mergeAll, hwired]
  show Fields.get? (Json.mergeFields (Json.mergeFields _ [(id, _)])
    keys.resources) id = _
  rw [Json.get?_mergeFields_of_not_mem hlate, Json.mergeFields,
    Json.mergeFields, Fields.get?_set_self]
  rw [Template.resource?] at staged
  rw [staged]
  exact congrArg some (Deployment.merge_extension fields _)

/-- When the run finds no deployment, it has written over all that there
were. -/
theorem generates_of_deployment (hapi : RestApi.stage provider = .ok restApi)
    (hnone : (mergeAll template
        (stages provider normalized restApi)).findOfType? Deployment.type
      = none) (deploymentId : String) {id : String} {existing : Json}
    (hget : template.resource? id = some existing)
    (htype : existing.field? "Type" = some (.str Deployment.type)) :
    Generates provider normalized deploymentId id := by
  by_contra hfree
  have hkeeps : ∀ fragment ∈ stages provider normalized restApi,
      id ∉ Fields.keys fragment.resources := by
    intro fragment hfragment hmem
    obtain ⟨⟨_, value⟩, hentry, rfl⟩ := List.mem_map.mp hmem
    obtain ⟨kind, -, hgenerated⟩ :=
      generated_of_mem_stages hapi deploymentId fragment hfragment _ _ hentry
    exact hfree ⟨kind, value, hgenerated⟩
  have hstaged := (get?_mergeAll_of_not_mem hkeeps).trans hget
  exact List.find?_eq_none.mp hnone _ (Fields.mem_of_get? hstaged)
    (decide_eq_true htype)

end Compile

/-- A run on any template changes it under the ids of what it generates,
under that of its deployment, and in the output that names the endpoint.
Everything else stays, and the resources keep their order with the new ones
behind them. If the run extends a deployment, no output changes, and unless
the run generates something else under its id, the deployment differs only in
what it depends on. -/
theorem compile_frame {provider : Provider} {descriptors : List Json}
    {template compiled : Template} {report : Report}
    (distinct : Fields.Distinct template.resources)
    (nonempty : descriptors ≠ [])
    (h : compile provider descriptors template = (.ok report, compiled)) :
    ∃ proxies deploymentId, parse descriptors = .ok proxies ∧
      report.deploymentId = some deploymentId ∧
      let generates :=
        Generates provider (Normalized.ofProxies proxies) deploymentId
      compiled.head = template.head ∧
      (∀ id, ¬ generates id → id ≠ deploymentId →
        compiled.resource? id = template.resource? id) ∧
      (∃ new, Fields.keys compiled.resources
        = Fields.keys template.resources ++ new ∧
        ∀ id, id ∈ new ↔
          (generates id ∨ id = deploymentId) ∧
            id ∉ Fields.keys template.resources) ∧
      (∀ name ≠ "ServiceEndpoint",
        Fields.get? compiled.outputs name = Fields.get? template.outputs name) ∧
      ((∃ fields, template.resource? deploymentId = some (.obj fields) ∧
          Fields.get? fields "Type" = some (.str Deployment.type) ∧
          compiled.outputs = template.outputs ∧
          (¬ generates deploymentId → compiled.resource? deploymentId =
            some (.obj (Fields.set fields "DependsOn" (.arr
              (Deployment.dependencies (.obj fields) ++
                report.methodIds.map Json.str)))))) ∨
        deploymentId = LogicalId.deployment provider.token ∧
          ∀ id existing, template.resource? id = some existing →
            existing.field? "Type" = some (.str Deployment.type) →
            generates id) := by
  obtain ⟨proxies, hparse, hevents⟩ := Compile.compile_eq_ok nonempty h
  obtain ⟨restApi, keys, hapi, hkeys, rfl, rfl⟩ := Compile.events_eq_ok hevents
  have hwritten := Compile.exists_mem_keys_iff hapi hkeys
  refine ⟨proxies, _, hparse, rfl, Compile.head_mergeAll _ _,
    fun id hfree hne => ?_, ?_, fun name hname => ?_, ?_⟩
  · refine Compile.get?_mergeAll_of_not_mem fun fragment hfragment hmem => ?_
    exact ((hwritten id).mp ⟨fragment, hfragment, hmem⟩).elim hfree hne
  · rw [Compile.keys_mergeAll]
    obtain ⟨new, hunion, hnew⟩ := FirstSeen.exists_union_eq_append
      (Fields.keys template.resources) (List.flatMap _ _)
    refine ⟨new, hunion, fun id => ?_⟩
    rw [hnew, List.mem_flatMap, hwritten]
  · rw [Compile.outputs_run hapi hkeys]
    rcases Compile.wired_cases provider (Normalized.ofProxies proxies)
        template restApi with
      ⟨id, existing, -, hwired⟩ | ⟨-, hwired⟩
    · rw [hwired]
      rfl
    · rw [hwired]
      exact (get?_endpoint template.outputs _).2 name hname
  · rcases Compile.wired_cases provider (Normalized.ofProxies proxies)
        template restApi with
      ⟨id, existing, hfound, hwired⟩ | ⟨hnone, hwired⟩
    · obtain ⟨fields, rfl, hbefore, htype, hafter⟩ :=
        Compile.extended distinct hapi keys hfound hwired
      rw [Compile.outputs_run hapi hkeys]
      rw [hwired] at hafter ⊢
      refine Or.inl ⟨fields, hbefore, htype, rfl, fun hfree =>
        hafter fun hmem => hfree ?_⟩
      obtain ⟨⟨_, value⟩, hentry, rfl⟩ := List.mem_map.mp hmem
      rw [hwired] at hkeys
      obtain ⟨kind, -, hgenerated⟩ :=
        ApiKeys.generated_of_mem_stage hkeys hentry
      exact ⟨kind, value, hgenerated⟩
    · rw [hwired]
      exact Or.inr ⟨rfl, fun id existing =>
        Compile.generates_of_deployment hapi hnone _⟩

/-- A table, and a deployment that depends on it. -/
theorem compile_frame_release :
    ∃ template compiled report,
      Fields.Distinct template.resources ∧ [topicDescriptor "a" "get"] ≠ [] ∧
      compile (Provider.ofStage "shop" "dev" "1")
          [topicDescriptor "a" "get"] template
        = (.ok report, compiled) ∧
      compiled.resource? "Table"
        = some (.obj [("Type", "AWS::DynamoDB::Table")]) ∧
      compiled.outputs = [] ∧
      compiled.resource? "Release"
        = some (.obj [("Type", "AWS::ApiGateway::Deployment"),
          ("DependsOn", Json.strings ["Table", "ApiGatewayMethodAGet"])]) := by
  let template : Template :=
    ⟨[], [("Table", .obj [("Type", "AWS::DynamoDB::Table")]),
      ("Release", .obj [("Type", "AWS::ApiGateway::Deployment"),
        ("DependsOn", "Table")])], []⟩
  have distinct : Fields.Distinct template.resources := by
    unfold Fields.Distinct
    decide
  have nonempty : [topicDescriptor "a" "get"] ≠ [] := List.cons_ne_nil _ _
  have hreport : (compile (Provider.ofStage "shop" "dev" "1")
      [topicDescriptor "a" "get"] template).1 = .ok ⟨1,
      ["ApiGatewayMethodAGet"], some "Release"⟩ := by decide
  have h := compile_eq_of_report hreport
  obtain ⟨proxies, deploymentId, -, hid, -, hframe, -, -, hdeployment⟩ :=
    compile_frame distinct nonempty h
  obtain rfl : "Release" = deploymentId := Option.some.inj hid
  have free : ∀ id, ¬ Reserved id →
      ¬ Generates (Provider.ofStage "shop" "dev" "1")
        (Normalized.ofProxies proxies) "Release" id :=
    fun id hid hgenerates => hid hgenerates.reserved
  refine ⟨template, _, _, distinct, nonempty, h,
    hframe "Table" (free _ (by decide)) (by decide), ?_⟩
  rcases hdeployment with ⟨fields, hfields, -, houtputs, hafter⟩ | ⟨hcreated, -⟩
  · cases hfields
    exact ⟨houtputs, hafter (free _ (by decide))⟩
  · exact absurd hcreated (by decide)

end GatewayStack
