import GatewayStack.Proofs.Routes
import GatewayStack.Proofs.Stages

/-!
# The deployment over many runs

A template is compiled into again and again, by other projects and with other
tokens. Each run looks for a deployment among what the runs before it left and
what its own stages have just put there, and either extends the one that it
finds or makes one.

What carries the argument is that the list of deployments does not change under
anything but that one step. A resource of another kind is never merged onto a
deployment, because ids tell kinds apart and no id of the first template is one
that a stage could write (`Template.deployments_merge`). So a run finds what the
run before it left, and over a whole sequence the first deployment collects the
ids of all methods in the order of the runs (`Runs.collects`).
-/

namespace GatewayStack

open LogicalId

/-! ## Ids that are kept for generated resources -/

/-- The id begins the way that ids of generated resources do. -/
def LogicalId.Reserved (id : String) : Prop :=
  "ApiGateway".toList <+: id.toList ∨ "Apigateway".toList <+: id.toList

instance (id : String) : Decidable (Reserved id) :=
  inferInstanceAs (Decidable (_ ∨ _))

theorem LogicalId.OfKind.reserved {kind : Kind} {id : String}
    (h : OfKind kind id) : Reserved id := by
  have word : "ApiGateway".toList <+: kind.word.toList ∨
      "Apigateway".toList <+: kind.word.toList := by
    cases kind <;> decide
  exact word.imp (·.trans h.begins_with_word) (·.trans h.begins_with_word)

theorem Conforming.of_not_reserved {resources : Fields Json}
    (free : ∀ id ∈ Fields.keys resources, ¬ Reserved id) :
    Conforming resources := by
  intro id resource kind hmem hid
  exact absurd hid.reserved (free id (Fields.mem_keys_of_mem hmem))

/-! ## The deployments of a template -/

def isDeployment (entry : String × Json) : Bool :=
  entry.2.field? "Type" = some (.str Deployment.type)

/-- The deployments of a template, in order. -/
def Template.deployments (template : Template) : Fields Json :=
  template.resources.filter isDeployment

/-- No id occurs twice, and those of some kind stand for resources of that
kind. -/
structure Template.Orderly (template : Template) : Prop where
  distinct : Fields.Distinct template.resources
  conforming : Conforming template.resources

theorem Template.orderly_empty : Template.empty.Orderly := by
  have none : Kinded (fun _ => False) Template.empty.resources := Kinded.nil
  exact ⟨Fields.distinct_nil, none.conforming⟩

theorem Template.findOfType?_deployment (template : Template) :
    template.findOfType? Deployment.type = template.deployments.head? :=
  List.head?_filter.symm

theorem HasType.not_isDeployment {kind : Kind} {resource : Json}
    (h : HasType kind.type resource) (other : kind ≠ .deployment)
    (id : String) : isDeployment (id, resource) = false := by
  refine decide_eq_false fun htype => other ?_
  rw [h.field] at htype
  exact Kind.type_injective (Json.str.inj (Option.some.inj htype))

/-- Folding other kinds of resources in leaves the deployments as they are. -/
theorem Conforming.filter_mergeFields {kinds : Kind → Prop}
    {older newer : Fields Json} (h : Conforming older)
    (hnew : Kinded kinds newer) (other : ¬ kinds .deployment) :
    (Json.mergeFields older newer).filter isDeployment
      = older.filter isDeployment := by
  induction newer generalizing older with
  | nil => rfl
  | cons entry rest ih =>
      obtain ⟨id, new⟩ := entry
      obtain ⟨kind, hkind, hid, htype⟩ := hnew id new List.mem_cons_self
      have hne : kind ≠ .deployment := fun heq => other (heq ▸ hkind)
      have hrest : Kinded kinds rest :=
        fun id resource hmem => hnew id resource (List.mem_cons_of_mem _ hmem)
      -- What the new resource meets is of its kind, and what comes of the
      -- two is as well.
      have hmerged := h.hasType_merged hid htype
      rw [Json.mergeFields, ih (h.set fun kind' hid' =>
        hid'.unique hid ▸ hmerged) hrest]
      exact Fields.filter_set_of_not
        (fun old hmem => (h id old kind hmem hid).not_isDeployment hne id)
        (hmerged.not_isDeployment hne id)

namespace Template

variable {kinds : Kind → Prop} {template : Template} {fragment : Fragment}

theorem distinct_merge (h : Fields.Distinct template.resources) :
    Fields.Distinct (template.merge fragment).resources := by
  unfold Fields.Distinct
  rw [Compile.keys_merge]
  exact FirstSeen.nodup_union h

theorem Orderly.merge (h : template.Orderly)
    (hkinds : Kinded kinds fragment.resources) :
    (template.merge fragment).Orderly :=
  ⟨distinct_merge h.distinct, h.conforming.mergeFields hkinds⟩

theorem deployments_merge (h : template.Orderly)
    (hkinds : Kinded kinds fragment.resources) (other : ¬ kinds .deployment) :
    (template.merge fragment).deployments = template.deployments :=
  h.conforming.filter_mergeFields hkinds other

theorem outputs_merge (h : fragment.outputs = []) :
    (template.merge fragment).outputs = template.outputs := by
  show Json.mergeFields template.outputs fragment.outputs = _
  rw [h]
  rfl

end Template

/-! ## The stages make no output and leave the deployments alone -/

theorem Fragment.outputs_addMethods (fragment : Fragment)
    (entries : List (String × Json)) :
    (fragment.addMethods entries).outputs = fragment.outputs := by
  induction entries generalizing fragment with
  | nil => rfl
  | cons entry rest ih => exact ih _

theorem Backend.outputs_stage (api : Api) (normalized : Normalized)
    (service : Service) :
    (Backend.stage api normalized service).outputs = [] := by
  have hrole : (Backend.roleFragment service
      (normalized.eventsFor service)).outputs = [] := by
    unfold Backend.roleFragment
    split <;> rfl
  have hmethods :
      (Backend.methodFragment api (normalized.eventsFor service)).outputs
        = [] :=
    Fragment.outputs_addMethods _ _
  show Fields.setAll (Backend.roleFragment _ _).outputs
    (Backend.methodFragment _ _).outputs = []
  rw [hrole, hmethods]
  rfl

theorem ApiKeys.outputs {provider : Provider} {api : Api}
    {deploymentId : String} {fragment : Fragment}
    (h : ApiKeys.stage provider api deploymentId = .ok fragment) :
    fragment.outputs = [] := by
  obtain ⟨names, -, rfl⟩ := ApiKeys.stage_eq_ok h
  rfl

namespace Compile

variable {provider : Provider} {normalized : Normalized} {restApi : Fragment}

theorem outputs_stages (h : RestApi.stage provider = .ok restApi) :
    ∀ fragment ∈ stages provider normalized restApi, fragment.outputs = [] := by
  refine forall_stages ?_ rfl ?_ fun service =>
    Backend.outputs_stage _ _ service
  · rcases RestApi.stage_eq_ok h with rfl | ⟨type, rfl⟩ <;> rfl
  · exact Fragment.outputs_addMethods _ _

/-- What folding the stages before the deployment in leaves as it was. -/
theorem mergeAll_keeps {kinds : Kind → Prop} {template : Template}
    {fragments : List Fragment} (h : template.Orderly)
    (other : ¬ kinds .deployment) (hkinds : ∀ fragment ∈ fragments,
      Kinded kinds fragment.resources)
    (houtputs : ∀ fragment ∈ fragments, fragment.outputs = []) :
    (mergeAll template fragments).Orderly ∧
      (mergeAll template fragments).deployments = template.deployments ∧
      (mergeAll template fragments).outputs = template.outputs := by
  induction fragments generalizing template with
  | nil => exact ⟨h, rfl, rfl⟩
  | cons fragment rest ih =>
      obtain ⟨hkind, hkinds⟩ := List.forall_mem_cons.mp hkinds
      obtain ⟨houtput, houtputs⟩ := List.forall_mem_cons.mp houtputs
      obtain ⟨horderly, hdeployments, hout⟩ :=
        ih (h.merge hkind) hkinds houtputs
      refine ⟨horderly, hdeployments.trans ?_, hout.trans ?_⟩
      · exact Template.deployments_merge h hkind other
      · exact Template.outputs_merge houtput

theorem staged_keeps {template : Template} (normalized : Normalized)
    (h : template.Orderly) (hapi : RestApi.stage provider = .ok restApi) :
    (mergeAll template (stages provider normalized restApi)).Orderly ∧
      (mergeAll template (stages provider normalized restApi)).deployments
        = template.deployments ∧
      (mergeAll template (stages provider normalized restApi)).outputs
        = template.outputs :=
  mergeAll_keeps h (by decide) (kinded_stages hapi) (outputs_stages hapi)

end Compile

/-! ## Extending a deployment -/

/-- A deployment with the same fields but for what it depends on. -/
def Deployment.withDependencies (fields : Fields Json)
    (ids : List Json) : Json :=
  .obj (Fields.set fields "DependsOn" (.arr ids))

namespace Deployment

variable {fields : Fields Json} {ids : List Json}

theorem dependencies_withDependencies :
    dependencies (withDependencies fields ids) = ids := by
  unfold dependencies withDependencies
  rw [Json.field?_obj, Fields.get?_set_self]

theorem withDependencies_field? {name : String} (h : name ≠ "DependsOn") :
    (withDependencies fields ids).field? name = Fields.get? fields name :=
  Fields.get?_set_of_ne fields _ (Ne.symm h)

theorem merge_extension (fields : Fields Json) (methodIds : List String) :
    Json.merge (.obj fields) (extension (.obj fields) methodIds)
      = withDependencies fields (dependencies (.obj fields) ++ methodIds.map
        Json.str) := by
  have replaced (old : Json) (items : List Json) : Json.merge old (.arr items)
      = .arr items :=
    Json.merge_of_plain old rfl
  unfold extension withDependencies
  rw [Json.merge_obj, Json.mergeFields, Json.mergeFields]
  simp only [replaced]
  split <;> rfl

theorem withDependencies_set (more : List Json) :
    withDependencies (Fields.set fields "DependsOn" (.arr ids)) more
      = withDependencies fields more := by
  unfold withDependencies
  rw [Fields.set_set]

theorem exists_fields (provider : Provider) (api : Api)
    (methodIds : List String) :
    ∃ fields, resource provider api methodIds = .obj fields ∧
      .obj fields = withDependencies fields (methodIds.map Json.str) :=
  ⟨_, rfl, rfl⟩

theorem stage_of_first {template : Template} {id : String} {existing : Json}
    {rest : Fields Json} (h : template.deployments = (id, existing) :: rest)
    (provider : Provider) (api : Api) (methodIds : List String) :
    stage provider api template methodIds
      = (Fragment.empty.addResource id (extension existing methodIds), id) := by
  unfold stage
  rw [Template.findOfType?_deployment, h]
  rfl

theorem stage_of_none {template : Template} (h : template.deployments = [])
    (provider : Provider) (api : Api) (methodIds : List String) :
    stage provider api template methodIds
      = (creation provider api methodIds,
        LogicalId.deployment provider.token) := by
  unfold stage
  rw [Template.findOfType?_deployment, h]
  rfl

end Deployment

theorem mem_of_deployments {template : Template}
    {rest : Fields Json} {id : String} {existing : Json}
    (h : template.deployments = (id, existing) :: rest) :
    (id, existing) ∈ template.resources ∧
      isDeployment (id, existing) = true := by
  have hmem : (id, existing) ∈ template.deployments := by
    rw [h]
    exact List.mem_cons_self
  exact List.mem_filter.mp hmem

theorem exists_obj_of_isDeployment {id : String} {existing : Json}
    (h : isDeployment (id, existing) = true) :
    ∃ fields, existing = .obj fields := by
  refine (Json.plain_or_obj existing).resolve_left fun plain => ?_
  have htype : existing.field? "Type" = some (.str Deployment.type) :=
    of_decide_eq_true h
  rw [Json.field?_of_plain plain] at htype
  cases htype

namespace Template

variable {template : Template}

theorem extend_first (h : template.Orderly) {id : String}
    {fields rest : Fields Json}
    (hfirst : template.deployments = (id, .obj fields) :: rest)
    (methodIds : List String) :
    let extended := template.merge
      (Fragment.empty.addResource id
        (Deployment.extension (.obj fields) methodIds))
    extended.Orderly ∧ extended.outputs = template.outputs ∧
      extended.deployments = (id, Deployment.withDependencies fields
        (Deployment.dependencies (.obj fields) ++ methodIds.map Json.str)) ::
        rest := by
  intro extended
  obtain ⟨hmem, htype⟩ := mem_of_deployments hfirst
  have hresources : extended.resources = Fields.set template.resources id
      (Deployment.withDependencies fields
        (Deployment.dependencies (.obj fields) ++ methodIds.map Json.str)) := by
    show Json.mergeFields template.resources
      [(id, Deployment.extension (.obj fields) methodIds)] = _
    rw [Json.mergeFields, Json.mergeFields, Fields.get?_of_mem h.distinct hmem]
    exact congrArg (Fields.set template.resources id)
      (Deployment.merge_extension fields methodIds)
  refine ⟨⟨distinct_merge h.distinct, ?_⟩, rfl, ?_⟩
  · rw [hresources, ← Deployment.merge_extension]
    refine h.conforming.set fun kind hid => ?_
    exact (h.conforming id _ kind hmem hid).merge_untyped (by simp)
  · have hnew : isDeployment (id, Deployment.withDependencies fields
          (Deployment.dependencies (.obj fields) ++ methodIds.map Json.str))
        = true := by
      unfold isDeployment
      rw [Deployment.withDependencies_field? (by decide)]
      exact htype
    unfold deployments
    rw [hresources, Fields.filter_set (fun old hold => ?_) hnew]
    · show Fields.set template.deployments id _ = _
      rw [hfirst, Fields.set, if_pos rfl]
    · rw [Option.some.inj ((Fields.get?_of_mem h.distinct hold).symm.trans
        (Fields.get?_of_mem h.distinct hmem))]
      exact htype

theorem create_first (h : template.Orderly) (hnone : template.deployments = [])
    (provider : Provider) (methodIds : List String) :
    let api := Api.ofProvider provider
    let created := template.merge (Deployment.creation provider api methodIds)
    created.Orderly ∧ created.deployments
        = [(LogicalId.deployment provider.token,
          Deployment.resource provider api methodIds)] := by
  intro api created
  have isDeployment_of_mem : ∀ old,
      (LogicalId.deployment provider.token, old) ∈ template.resources →
        isDeployment (LogicalId.deployment provider.token, old) = true := by
    intro old hold
    exact decide_eq_true (h.conforming _ old .deployment hold
      (.deployment _)).field
  -- Whatever stood under the new id would be a deployment already.
  have absent : Fields.get? template.resources
      (LogicalId.deployment provider.token) = none := by
    cases hget : Fields.get? template.resources
        (LogicalId.deployment provider.token) with
    | none => rfl
    | some old =>
        have hold := Fields.mem_of_get? hget
        have hdeployments :=
          List.mem_filter.mpr ⟨hold, isDeployment_of_mem old hold⟩
        rw [show template.resources.filter isDeployment = [] from hnone]
          at hdeployments
        cases hdeployments
  refine ⟨h.merge (Deployment.kinded_creation provider api methodIds), ?_⟩
  show List.filter isDeployment (Json.mergeFields template.resources
    [(LogicalId.deployment provider.token,
      Deployment.resource provider api methodIds)]) = _
  rw [Json.mergeFields, Json.mergeFields, absent,
    Fields.filter_set isDeployment_of_mem rfl]
  show Fields.set template.deployments _ _ = _
  rw [hnone]
  rfl

end Template

/-! ## One run -/

namespace Compile

variable {provider : Provider} {normalized : Normalized}
  {template compiled : Template} {report : Report}

theorem events_extends
    (h : events provider normalized template = .ok (report, compiled))
    (orderly : template.Orderly) {id : String} {fields rest : Fields Json}
    (hfirst : template.deployments = (id, .obj fields) :: rest) :
    compiled.Orderly ∧ report.deploymentId = some id ∧
      compiled.outputs = template.outputs ∧
      compiled.deployments = (id, Deployment.withDependencies fields
        (Deployment.dependencies (.obj fields) ++ report.methodIds.map
          Json.str)) :: rest := by
  obtain ⟨restApi, keys, hapi, hkeys, rfl, rfl⟩ := events_eq_ok h
  obtain ⟨hstaged, hdeployments, houtputs⟩ :=
    staged_keeps normalized orderly hapi
  -- The stages leave the deployments alone, so what the run finds is the
  -- first one of old.
  rw [hfirst] at hdeployments
  have hwired : wired provider normalized template restApi
      = (Fragment.empty.addResource id (Deployment.extension (.obj fields)
        ((stages provider normalized restApi).flatMap Fragment.methodIds)),
        id) :=
    Deployment.stage_of_first hdeployments _ _ _
  rw [hwired] at hkeys ⊢
  obtain ⟨hextended, hout, hdep⟩ := Template.extend_first hstaged hdeployments
    ((stages provider normalized restApi).flatMap Fragment.methodIds)
  have hkinds := ApiKeys.kinded hkeys
  rw [mergeAll_append]
  refine ⟨hextended.merge hkinds, rfl, ?_, ?_⟩
  · exact (Template.outputs_merge (ApiKeys.outputs hkeys)).trans
      (hout.trans houtputs)
  · exact (Template.deployments_merge hextended hkinds (by decide)).trans hdep

theorem events_creates
    (h : events provider normalized template = .ok (report, compiled))
    (orderly : template.Orderly) (hnone : template.deployments = []) :
    compiled.Orderly ∧ report.deploymentId
      = some (LogicalId.deployment provider.token) ∧
      compiled.outputs = Json.mergeFields template.outputs
        [(Deployment.outputName,
          Deployment.output provider (Api.ofProvider provider))] ∧
      compiled.deployments = [(LogicalId.deployment provider.token,
        Deployment.resource provider (Api.ofProvider provider)
          report.methodIds)] := by
  obtain ⟨restApi, keys, hapi, hkeys, rfl, rfl⟩ := events_eq_ok h
  obtain ⟨hstaged, hdeployments, houtputs⟩ :=
    staged_keeps normalized orderly hapi
  rw [hnone] at hdeployments
  have hwired : wired provider normalized template restApi
      = (Deployment.creation provider (Api.ofProvider provider)
        ((stages provider normalized restApi).flatMap Fragment.methodIds),
        LogicalId.deployment provider.token) :=
    Deployment.stage_of_none hdeployments _ _ _
  rw [hwired] at hkeys ⊢
  obtain ⟨hcreated, hdep⟩ := Template.create_first hstaged hdeployments provider
    ((stages provider normalized restApi).flatMap Fragment.methodIds)
  have hkinds := ApiKeys.kinded hkeys
  rw [mergeAll_append]
  refine ⟨hcreated.merge hkinds, rfl, ?_, ?_⟩
  · refine (Template.outputs_merge (ApiKeys.outputs hkeys)).trans ?_
    show Json.mergeFields (mergeAll template _).outputs _ = _
    rw [houtputs]
    rfl
  · exact (Template.deployments_merge hcreated hkinds (by decide)).trans hdep

theorem orderly_events
    (h : events provider normalized template = .ok (report, compiled))
    (orderly : template.Orderly) : compiled.Orderly := by
  cases hfirst : template.deployments with
  | nil => exact (events_creates h orderly hfirst).1
  | cons entry rest =>
      obtain ⟨id, existing⟩ := entry
      obtain ⟨fields, rfl⟩ :=
        exists_obj_of_isDeployment (mem_of_deployments hfirst).2
      exact (events_extends h orderly hfirst).1

theorem orderly_compile {descriptors : List Json}
    (h : compile provider descriptors template = (.ok report, compiled))
    (orderly : template.Orderly) : compiled.Orderly := by
  by_cases empty : descriptors = []
  · subst empty
    obtain ⟨-, rfl⟩ := Prod.mk.inj h
    exact orderly
  · obtain ⟨_, -, hevents⟩ := compile_eq_ok empty h
    exact orderly_events hevents orderly

/-! ## What a run leaves under an id -/

/-- The deployment that is found or made is under the id of no other kind. -/
theorem get?_deployment_stage (orderly : template.Orderly)
    {kind : Kind} {id : String} (hid : OfKind kind id)
    (other : kind ≠ .deployment) (api : Api) (methodIds : List String) :
    Fields.get? (Deployment.stage provider api template methodIds).1.resources
      id = none := by
  cases hfirst : template.deployments with
  | nil =>
      rw [Deployment.stage_of_none hfirst]
      exact (Deployment.kinded_creation provider api methodIds).get?_eq_none hid
        other
  | cons entry rest =>
      obtain ⟨found, existing⟩ := entry
      rw [Deployment.stage_of_first hfirst]
      obtain ⟨hmem, htype⟩ := mem_of_deployments hfirst
      have hne : found ≠ id := by
        rintro rfl
        exact other (orderly.conforming.not_ofKind hmem
          (of_decide_eq_true htype) hid)
      show Fields.get? [(found, Deployment.extension existing methodIds)] id
        = none
      rw [Fields.get?, if_neg hne, Fields.get?_nil]

theorem distinct_deployment_stage (api : Api) (methodIds : List String) :
    Fields.Distinct (Deployment.stage provider api template
      methodIds).1.resources := by
  unfold Deployment.stage
  split <;> exact Fragment.distinct_addResource Fields.distinct_nil _ _

/-- Under an id of a kind that the stages before the deployment make, there are
the versions that these stages have of it, merged onto what was there. -/
theorem resource?_early {restApi : Fragment}
    (hapi : RestApi.stage provider = .ok restApi)
    (h : events provider normalized template = .ok (report, compiled))
    (orderly : template.Orderly) {kind : Kind} {id : String}
    (hid : OfKind kind id) (early : EarlyKind kind) :
    compiled.resource? id = Json.mergeOnto (template.resource? id)
      (versions (stages provider normalized restApi) id) := by
  obtain ⟨found, keys, hfound, hkeys, -, rfl⟩ := events_eq_ok h
  rw [hapi] at hfound
  obtain rfl := Except.ok.inj hfound
  have hstaged := (staged_keeps normalized orderly hapi).1
  have distinct : ∀ fragment ∈ stages provider normalized restApi ++
      [(wired provider normalized template restApi).1, keys],
      Fields.Distinct fragment.resources := by
    refine List.forall_mem_append.mpr ⟨distinct_stages hapi,
      List.forall_mem_cons.mpr ⟨?_,
        List.forall_mem_singleton.mpr (ApiKeys.distinct hkeys)⟩⟩
    exact distinct_deployment_stage _ _
  obtain ⟨notDeployment, notKeys⟩ : kind ≠ .deployment ∧ ¬ LateKind kind := by
    rcases early with rfl | rfl | rfl | rfl <;> decide
  -- What comes after the stages is under ids of later kinds.
  have hwired : Fields.get? (wired provider normalized template
      restApi).1.resources id = none :=
    get?_deployment_stage hstaged hid notDeployment _ _
  show Fields.get? _ _ = _
  rw [get?_mergeAll distinct, versions_append, versions_cons,
    versions_cons, hwired, (ApiKeys.kinded hkeys).get?_eq_none hid notKeys]
  simp only [Option.toList_none, versions_nil, List.append_nil]
  rfl

end Compile

/-! ## Runs in sequence -/

/-- A compilation of at least one descriptor that succeeded. -/
structure Run where
  provider : Provider
  descriptors : List Json
  nonempty : descriptors ≠ []
  report : Report

/-- The runs lead from one template to another, each compiling into what the one
before it left. -/
inductive Runs : Template → List Run → Template → Prop
  | nil {template : Template} : Runs template [] template
  | cons {start next final : Template} {run : Run} {later : List Run}
      (first : compile run.provider run.descriptors start
        = (.ok run.report, next))
      (rest : Runs next later final) : Runs start (run :: later) final

def methodIdsOf (runs : List Run) : List String :=
  runs.flatMap fun run => run.report.methodIds

theorem compile_eq_of_report {provider : Provider} {descriptors : List Json}
    {template : Template} {report : Report}
    (h : (compile provider descriptors template).1 = .ok report) :
    compile provider descriptors template
      = (.ok report, (compile provider descriptors template).2) :=
  Prod.ext h rfl

namespace Runs

variable {start final : Template} {runs : List Run}

/-- The first deployment collects the methods of all runs. -/
theorem collects (h : Runs start runs final)
    (orderly : start.Orderly) {id : String} {fields rest : Fields Json}
    {ids : List Json}
    (hfirst : start.deployments = (id,
      Deployment.withDependencies fields ids) :: rest) :
    (∀ run ∈ runs, run.report.deploymentId = some id) ∧
      final.outputs = start.outputs ∧
      final.deployments = (id, Deployment.withDependencies fields
        (ids ++ (methodIdsOf runs).map Json.str)) :: rest := by
  induction h generalizing ids with
  | nil =>
      rw [methodIdsOf, List.flatMap_nil, List.map_nil, List.append_nil]
      exact ⟨fun run hmem => absurd hmem List.not_mem_nil, rfl, hfirst⟩
  | @cons start next final run later first _ ih =>
      obtain ⟨proxies, -, hevents⟩ := Compile.compile_eq_ok run.nonempty first
      obtain ⟨hnext, hid, houtputs, hdeployments⟩ :=
        Compile.events_extends hevents orderly hfirst
      -- From the first run on the dependencies are a list, so extending it
      -- again appends.
      rw [Deployment.withDependencies_set] at hdeployments
      have hbefore :
          Deployment.dependencies
            (.obj (Fields.set fields "DependsOn" (.arr ids))) = ids :=
        Deployment.dependencies_withDependencies
      rw [hbefore] at hdeployments
      obtain ⟨hids, hout, hfinal⟩ := ih hnext hdeployments
      refine ⟨List.forall_mem_cons.mpr ⟨hid, hids⟩, hout.trans houtputs, ?_⟩
      rw [hfinal, methodIdsOf, methodIdsOf, List.flatMap_cons, List.map_append,
        List.append_assoc]

end Runs

/-- What a resource depends on, by the shape of its field: a list as it is, a
single id as a list of one, and any other shape as nothing. -/
inductive DependsOn : Option Json → List Json → Prop
  | list (ids : List Json) : DependsOn (some (.arr ids)) ids
  | single (id : String) : DependsOn (some (.str id)) [.str id]
  | other {value : Option Json} (noList : ∀ ids, value ≠ some (.arr ids))
      (noText : ∀ id, value ≠ some (.str id)) : DependsOn value []

theorem Deployment.dependsOn (fields : Fields Json) :
    DependsOn (Fields.get? fields "DependsOn")
      (Deployment.dependencies (.obj fields)) := by
  unfold Deployment.dependencies
  rw [Json.field?_obj]
  split
  · next ids h => rw [h]; exact .list ids
  · next id h => rw [h]; exact .single id
  · next noList noText => exact .other noList noText

theorem get?_endpoint (outputs : Fields Json) (endpoint : Json) :
    (∃ found, Fields.get? (Json.mergeFields outputs
          [(Deployment.outputName, endpoint)]) Deployment.outputName
        = some found ∧
      (Fields.get? outputs Deployment.outputName = none → found = endpoint)) ∧
    ∀ name ≠ Deployment.outputName,
      Fields.get? (Json.mergeFields outputs
          [(Deployment.outputName, endpoint)]) name
        = Fields.get? outputs name := by
  rw [Json.mergeFields, Json.mergeFields]
  refine ⟨⟨_, Fields.get?_set_self _ _ _, fun hnone => ?_⟩,
    fun name hname => ?_⟩
  · rw [hnone]
  · exact Fields.get?_set_of_ne _ _ (Ne.symm hname)

/-- Runs on a template that has no id in the way generated ones begin. If it
has a deployment, every run is wired to the first one, which in the end depends
on what it did before and then on the methods of all runs, in order; nothing
else about the deployments changes, nor does any output. If it has none, the
first run makes one, with the output that names the endpoint, and every run is
wired to that. -/
theorem deployment_wired {start final : Template} {runs : List Run}
    (distinct : Fields.Distinct start.resources)
    (free : ∀ id ∈ Fields.keys start.resources, ¬ Reserved id)
    (nonempty : runs ≠ []) (h : Runs start runs final) :
    (∀ id existing rest, start.deployments = (id, existing) :: rest →
      (∀ run ∈ runs, run.report.deploymentId = some id) ∧
        final.outputs = start.outputs ∧
        ∃ fields before, existing = .obj fields ∧
          DependsOn (Fields.get? fields "DependsOn") before ∧
          final.deployments = (id, .obj (Fields.set fields "DependsOn"
            (.arr (before ++ (methodIdsOf runs).map Json.str)))) :: rest) ∧
    (start.deployments = [] → ∃ first later next fields, runs = first :: later ∧
      Runs start [first] next ∧ Runs next later final ∧
      .obj fields = Deployment.resource first.provider
        (Api.ofProvider first.provider) first.report.methodIds ∧
      next.deployments
        = [(LogicalId.deployment first.provider.token, .obj fields)] ∧
      (∃ endpoint, Fields.get? next.outputs "ServiceEndpoint" = some endpoint ∧
        (Fields.get? start.outputs "ServiceEndpoint" = none →
          endpoint = Deployment.output first.provider
            (Api.ofProvider first.provider))) ∧
      (∀ name ≠ "ServiceEndpoint", Fields.get? next.outputs name
        = Fields.get? start.outputs name) ∧
      (∀ run ∈ runs,
        run.report.deploymentId
          = some (LogicalId.deployment first.provider.token)) ∧
      final.outputs = next.outputs ∧
      final.deployments = [(LogicalId.deployment first.provider.token,
        .obj (Fields.set fields "DependsOn"
          (.arr ((methodIdsOf runs).map Json.str))))]) := by
  have orderly : start.Orderly := ⟨distinct, .of_not_reserved free⟩
  cases h with
  | nil => exact absurd rfl nonempty
  | @cons _ next _ run later first rest =>
      obtain ⟨proxies, -, hevents⟩ := Compile.compile_eq_ok run.nonempty first
      refine ⟨fun id existing others hfirst => ?_, fun hnone => ?_⟩
      · obtain ⟨fields, rfl⟩ :=
          exists_obj_of_isDeployment (mem_of_deployments hfirst).2
        obtain ⟨hnext, hid, houtputs, hdeployments⟩ :=
          Compile.events_extends hevents orderly hfirst
        obtain ⟨hids, hout, hfinal⟩ := rest.collects hnext hdeployments
        refine ⟨List.forall_mem_cons.mpr ⟨hid, hids⟩, hout.trans houtputs,
          fields, _, rfl, Deployment.dependsOn fields, ?_⟩
        rw [hfinal, methodIdsOf, methodIdsOf, List.flatMap_cons,
          List.map_append, List.append_assoc]
        rfl
      · obtain ⟨hnext, hid, houtputs, hdeployments⟩ :=
          Compile.events_creates hevents orderly hnone
        obtain ⟨fields, hfields, hown⟩ := Deployment.exists_fields run.provider
          (Api.ofProvider run.provider) run.report.methodIds
        rw [hfields] at hdeployments
        obtain ⟨hids, hout, hfinal⟩ := rest.collects hnext (hown ▸ hdeployments)
        obtain ⟨hendpoint, hothers⟩ := get?_endpoint start.outputs
          (Deployment.output run.provider (Api.ofProvider run.provider))
        rw [← houtputs] at hendpoint hothers
        refine ⟨run, later, next, fields, rfl, .cons first .nil, rest,
          hfields.symm, hdeployments, hendpoint, hothers,
          List.forall_mem_cons.mpr ⟨hid, hids⟩, hout, ?_⟩
        rw [hfinal, methodIdsOf, methodIdsOf, List.flatMap_cons,
          List.map_append]
        rfl

/-- A deployment of its own that depends on one resource, and two runs. -/
theorem deployment_wired_twice :
    ∃ start final runs,
      Fields.Distinct start.resources ∧
        (∀ id ∈ Fields.keys start.resources, ¬ Reserved id) ∧
      runs ≠ [] ∧ Runs start runs final ∧
      final.deployments
        = [("Release",
          .obj [("Type", "AWS::ApiGateway::Deployment"), ("DependsOn",
          Json.strings ["Table", "ApiGatewayMethodAGet",
            "ApiGatewayMethodBGet"])])] := by
  let start : Template :=
    ⟨[], [("Release", .obj [("Type", "AWS::ApiGateway::Deployment"),
      ("DependsOn", "Table")])], []⟩
  let first : Run := ⟨Provider.ofStage "shop" "dev" "1",
    [topicDescriptor "a" "get"], List.cons_ne_nil _ _,
    ⟨1, ["ApiGatewayMethodAGet"], some "Release"⟩⟩
  let second : Run := ⟨Provider.ofStage "shop" "dev" "2",
    [topicDescriptor "b" "get"], List.cons_ne_nil _ _,
    ⟨1, ["ApiGatewayMethodBGet"], some "Release"⟩⟩
  have distinct : Fields.Distinct start.resources := List.nodup_singleton _
  have free : ∀ id ∈ Fields.keys start.resources, ¬ Reserved id := by decide
  have hfirst : (compile first.provider first.descriptors start).1
      = .ok first.report := by decide
  have hsecond : (compile second.provider second.descriptors
        (compile first.provider first.descriptors start).2).1
      = .ok second.report := by decide
  obtain ⟨final, hruns⟩ : ∃ final, Runs start [first, second] final :=
    ⟨_, .cons (compile_eq_of_report hfirst)
      (.cons (compile_eq_of_report hsecond) .nil)⟩
  refine ⟨start, final, [first, second], distinct, free,
    List.cons_ne_nil _ _, hruns, ?_⟩
  obtain ⟨-, -, fields, before, heq, hbefore, hfinal⟩ :=
    (deployment_wired distinct free (List.cons_ne_nil _ _) hruns).1 _ _ _ rfl
  cases heq
  rw [hfinal]
  cases hbefore with
  | single id => rfl
  | other noList noText => exact absurd rfl (noText "Table")

end GatewayStack
