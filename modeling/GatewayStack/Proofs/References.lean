import GatewayStack.Proofs.Generated
import GatewayStack.Proofs.KeyedMethods

/-!
# References in generated resources

A value refers to a resource if it has an intrinsic function somewhere that
names the resource or one of its attributes. This file says for every kind of
generated resource where it has such references. Most of a resource is texts
that refer to nothing. What is left are the references to the API and its
resources, which all come from the record `Api`, the shared role of a method,
the keys and the plan of a binding, and the values that are taken over from the
configuration as they are.
-/

namespace GatewayStack

open LogicalId

namespace Json

/-- The value is a reference to a resource or to an attribute of it, or
has one inside. -/
inductive RefersTo (id : String) : Json → Prop
  | ref : RefersTo id (Intrinsic.ref id)
  | getAtt (name : String) : RefersTo id (Intrinsic.getAtt id name)
  | item {items : List Json} {value : Json} (mem : value ∈ items)
      (h : RefersTo id value) :
      RefersTo id (.arr items)
  | field {fields : Fields Json} {entry : String × Json} (mem : entry ∈ fields)
      (h : RefersTo id entry.2) : RefersTo id (.obj fields)

/-- One of the values refers to the resource. -/
def SomeRefers (id : String) (fields : Fields Json) : Prop :=
  ∃ entry ∈ fields, RefersTo id entry.2

variable {id : String}

@[simp] theorem not_refersTo_null : ¬ RefersTo id .null := by rintro ⟨⟩

@[simp] theorem not_refersTo_bool (b : Bool) :
    ¬ RefersTo id (.bool b) := by rintro ⟨⟩

@[simp] theorem not_refersTo_num (n : Number) :
    ¬ RefersTo id (.num n) := by rintro ⟨⟩

@[simp] theorem not_refersTo_str (s : String) :
    ¬ RefersTo id (.str s) := by rintro ⟨⟩

@[simp] theorem not_refersTo_nat (n : Nat) : ¬ RefersTo id (.nat n) :=
  not_refersTo_num _

@[simp] theorem refersTo_arr {items : List Json} :
    RefersTo id (.arr items) ↔ ∃ item ∈ items, RefersTo id item := by
  refine ⟨fun h => ?_, fun ⟨item, mem, h⟩ => .item mem h⟩
  cases h with
  | item mem h => exact ⟨_, mem, h⟩

@[simp] theorem not_refersTo_strings (items : List String) :
    ¬ RefersTo id (.strings items) := by
  simp [strings]

theorem refersTo_obj {fields : Fields Json} :
    RefersTo id (.obj fields) ↔ fields = [("Ref", .str id)] ∨
      (∃ name, fields = [("Fn::GetAtt", .arr [.str id, .str name])]) ∨
      SomeRefers id fields := by
  refine ⟨fun h => ?_, ?_⟩
  · cases h with
    | ref => exact Or.inl rfl
    | getAtt name => exact Or.inr (Or.inl ⟨name, rfl⟩)
    | field mem h => exact Or.inr (Or.inr ⟨_, mem, h⟩)
  · rintro (rfl | ⟨name, rfl⟩ | ⟨entry, mem, h⟩)
    · exact .ref
    · exact .getAtt name
    · exact .field mem h

@[simp] theorem someRefers_nil : ¬ SomeRefers id [] := by
  rintro ⟨entry, mem, -⟩
  cases mem

@[simp] theorem someRefers_cons {name : String} {value : Json}
    {rest : Fields Json} :
    SomeRefers id ((name, value) :: rest) ↔
      RefersTo id value ∨ SomeRefers id rest := by
  unfold SomeRefers
  simp only [List.mem_cons, or_and_right, exists_or, exists_eq_left]

@[simp] theorem someRefers_append {a b : Fields Json} :
    SomeRefers id (a ++ b) ↔ SomeRefers id a ∨ SomeRefers id b := by
  unfold SomeRefers
  simp only [List.mem_append, or_and_right, exists_or]

@[simp] theorem someRefers_optionalProperty {name : String}
    {value : Option Json} :
    SomeRefers id (optionalProperty name value) ↔ ∃ given, value = some given ∧
      RefersTo id given := by
  cases value <;> simp [optionalProperty]

@[simp] theorem not_refersTo_empty : ¬ RefersTo id (.obj []) := by
  rw [refersTo_obj]
  simp

@[simp] theorem refersTo_ref {other : String} :
    RefersTo id (Intrinsic.ref other) ↔ other = id := by
  rw [Intrinsic.ref, refersTo_obj]
  simp

@[simp] theorem refersTo_getAtt {other name : String} :
    RefersTo id (Intrinsic.getAtt other name) ↔ other = id := by
  rw [Intrinsic.getAtt, refersTo_obj]
  simp

/-- A mapping that has a name besides those of the two intrinsic functions
refers to what its fields refer to. -/
theorem refersTo_obj_of_key {fields : Fields Json} {name : String}
    (h : name ∈ Fields.keys fields) (noRef : name ≠ "Ref")
    (noAttribute : name ≠ "Fn::GetAtt") :
    RefersTo id (.obj fields) ↔ SomeRefers id fields := by
  rw [refersTo_obj]
  refine ⟨?_, fun h => Or.inr (Or.inr h)⟩
  rintro (rfl | ⟨attr, rfl⟩ | h)
  · exact absurd (List.mem_singleton.mp h) noRef
  · exact absurd (List.mem_singleton.mp h) noAttribute
  · exact h

@[simp] theorem refersTo_obj_cons {name : String} {value : Json}
    {rest : Fields Json} (noRef : name ≠ "Ref")
    (noAttribute : name ≠ "Fn::GetAtt") :
    RefersTo id (.obj ((name, value) :: rest)) ↔
      RefersTo id value ∨ SomeRefers id rest := by
  rw [refersTo_obj_of_key List.mem_cons_self noRef noAttribute, someRefers_cons]

/-- An entry that is no reference and has none inside. -/
def Inert (id : String) (entry : String × Json) : Prop :=
  entry.1 ≠ "Ref" ∧ entry.1 ≠ "Fn::GetAtt" ∧ ¬ RefersTo id entry.2

theorem not_refersTo_of_inert {fields : Fields Json}
    (h : ∀ entry ∈ fields, Inert id entry) :
    ¬ RefersTo id (.obj fields) := by
  rw [refersTo_obj]
  rintro (rfl | ⟨name, rfl⟩ | ⟨entry, mem, refers⟩)
  · exact (h _ List.mem_cons_self).1 rfl
  · exact (h _ List.mem_cons_self).2.1 rfl
  · exact (h entry mem).2.2 refers

theorem not_refersTo_of_bools {fields : Fields Json}
    (h : ∀ entry ∈ fields, ∃ b, entry.2 = .bool b) :
    ¬ RefersTo id (.obj fields) := by
  rw [refersTo_obj]
  rintro (rfl | ⟨name, rfl⟩ | ⟨entry, mem, refers⟩)
  · obtain ⟨b, hb⟩ := h _ List.mem_cons_self
    cases hb
  · obtain ⟨b, hb⟩ := h _ List.mem_cons_self
    cases hb
  · obtain ⟨b, hb⟩ := h entry mem
    rw [hb] at refers
    exact not_refersTo_bool b refers

@[simp] theorem not_refersTo_mapValues_bool {α : Type} (f : α → Bool)
    (fields : Fields α) :
    ¬ RefersTo id (.obj (Fields.mapValues (fun value => .bool (f value))
      fields)) := by
  refine not_refersTo_of_bools fun entry hentry => ?_
  obtain ⟨entry, -, rfl⟩ := List.mem_map.mp hentry
  exact ⟨f entry.2, rfl⟩

/-- Configured texts on top of generated entries, under a name that no
reference has. -/
theorem not_refersTo_setAll_texts {generated : Fields Json} {name : String}
    (h : name ∈ Fields.keys generated) (noRef : name ≠ "Ref")
    (noAttribute : name ≠ "Fn::GetAtt") (silent : ¬ SomeRefers id generated)
    (configured : Fields String) :
    ¬ RefersTo id (.obj (Fields.setAll generated
      (Fields.mapValues Json.str configured))) := by
  have hkey : name ∈ Fields.keys
      (Fields.setAll generated (Fields.mapValues Json.str configured)) := by
    rw [Fields.keys_setAll, FirstSeen.mem_union]
    exact Or.inl h
  rw [refersTo_obj_of_key hkey noRef noAttribute]
  rintro ⟨entry, mem, refers⟩
  rcases Fields.mem_setAll mem with mem | mem
  · exact silent ⟨entry, mem, refers⟩
  · obtain ⟨text, -, heq⟩ := List.mem_map.mp mem
    rw [← (Prod.mk.inj heq).2] at refers
    exact not_refersTo_str text.2 refers

end Json

open Json (RefersTo SomeRefers)

variable {id : String}

/-! ## The tree of the API -/

theorem PathTree.refersTo_resource {api : Api} {path : String} :
    RefersTo id (PathTree.resource api path) ↔
      RefersTo id (api.resourceId (String.ofList (Path.parent path.toList))) ∨
        RefersTo id api.restApiId := by
  simp [PathTree.resource]

@[simp] theorem not_refersTo_constant (value : String) :
    ¬ RefersTo id (constant value) :=
  Json.not_refersTo_str _

theorem inert_optionalProperty {α : Type} {name : String} (noRef : name ≠ "Ref")
    (noAttribute : name ≠ "Fn::GetAtt") {f : α → Json}
    (h : ∀ value, ¬ RefersTo id (f value)) (value : Option α) :
    ∀ entry ∈ optionalProperty name (value.map f), Json.Inert id entry := by
  refine forall_optionalProperty fun given hgiven => ⟨noRef, noAttribute, ?_⟩
  obtain ⟨value, -, rfl⟩ := Option.map_eq_some_iff.mp hgiven
  exact h value

theorem responseHeader_ne_of_not_begins (name : String) {other : String}
    (h : ¬ "method.response.header.".toList <+: other.toList) :
    responseHeader name ≠ other := by
  rintro rfl
  exact h ⟨name.toList, String.toList_append.symm⟩

theorem responseHeader_ne (name : String) :
    responseHeader name ≠ "Ref" ∧ responseHeader name ≠ "Fn::GetAtt" :=
  ⟨responseHeader_ne_of_not_begins name (by decide),
    responseHeader_ne_of_not_begins name (by decide)⟩

theorem inert_responseHeader (name : String) {value : Json}
    (h : ¬ RefersTo id value) :
    Json.Inert id (responseHeader name, value) :=
  ⟨(responseHeader_ne name).1, (responseHeader_ne name).2, h⟩

theorem Preflight.inert_headers (policy : CorsPolicy) :
    ∀ entry ∈ Preflight.headers policy, Json.Inert id entry := by
  have hoptional (name : String) (value : Option String) :
      ∀ entry ∈ optionalProperty (responseHeader name) (value.map constant),
        Json.Inert id entry :=
    inert_optionalProperty (responseHeader_ne name).1 (responseHeader_ne name).2
      not_refersTo_constant value
  unfold Preflight.headers
  simp only [List.forall_mem_append, List.forall_mem_cons, List.not_mem_nil,
    false_imp_iff, implies_true, and_true]
  exact ⟨⟨⟨⟨inert_responseHeader _ (not_refersTo_constant _),
    inert_responseHeader _ (not_refersTo_constant _),
    inert_responseHeader _ (not_refersTo_constant _)⟩, hoptional _ _⟩,
    hoptional _ _⟩, hoptional _ _⟩

theorem Preflight.refersTo_resource {api : Api} {path : String}
    {policy : CorsPolicy} :
    RefersTo id (Preflight.resource api path policy) ↔
      RefersTo id (api.resourceId path) ∨ RefersTo id api.restApiId := by
  have hheaders : ¬ RefersTo id (.obj (Preflight.headers policy)) :=
    Json.not_refersTo_of_inert (Preflight.inert_headers policy)
  have hflags : ¬ RefersTo id
      (.obj (Fields.mapValues (fun _ => .bool true)
        (Preflight.headers policy))) :=
    Json.not_refersTo_mapValues_bool (fun _ => true) _
  simp [Preflight.resource, Json.empty, hheaders, hflags]

/-! ## The role -/

theorem Substitution.refersTo_cons {pieces : List Piece} {name : String}
    {value : Json} {rest : Fields Json} (noRef : name ≠ "Ref")
    (noAttribute : name ≠ "Fn::GetAtt") :
    RefersTo id (Substitution.toJson ⟨pieces, (name, value) :: rest⟩) ↔
      RefersTo id value ∨ SomeRefers id rest := by
  simp [Substitution.toJson, noRef, noAttribute]

theorem Substitution.not_refersTo_of_nil (pieces : List Piece) :
    ¬ RefersTo id (Substitution.toJson ⟨pieces, []⟩) := by
  simp [Substitution.toJson]

theorem Service.hole_ne (service : Service) :
    service.hole ≠ "Ref" ∧ service.hole ≠ "Fn::GetAtt" := by
  cases service <;> decide

theorem Service.refersTo_arn {service : Service} {name : ResourceName} :
    RefersTo id (service.arn name) ↔ RefersTo id name.toJson := by
  unfold Service.arn
  rw [Substitution.refersTo_cons service.hole_ne.1 service.hole_ne.2]
  simp

namespace Permission

variable {service : Service} {targets : List Target}

theorem refersTo_allow {actions resources : Json} :
    RefersTo id (allow actions resources) ↔
      RefersTo id actions ∨ RefersTo id resources := by
  simp [allow]

theorem not_refersTo_statements
    (h : ∀ target ∈ targets, ¬ RefersTo id target.resourceName.toJson) :
    ∀ statement ∈ statements service targets, ¬ RefersTo id statement := by
  refine forall_statements (fun statement hmem => ?_) ?_
  · obtain ⟨target, htarget, rfl⟩ := mem_separate.mp hmem
    rw [refersTo_allow, Service.refersTo_arn]
    exact not_or.mpr ⟨Json.not_refersTo_str _, h target htarget⟩
  · unfold together
    rw [refersTo_allow, Json.refersTo_arr]
    refine not_or.mpr ⟨Json.not_refersTo_strings _, ?_⟩
    rintro ⟨arn, harn, refers⟩
    obtain ⟨target, htarget, rfl⟩ := mem_arns.mp harn
    exact h target htarget (Service.refersTo_arn.mp refers)

theorem not_refersTo_role
    (h : ∀ target ∈ targets, ¬ RefersTo id target.resourceName.toJson) :
    ¬ RefersTo id (role service targets) := by
  have hstatements : ∀ statement ∈ statements service targets,
      ¬ RefersTo id statement :=
    not_refersTo_statements h
  have hlog : ¬ RefersTo id logStatement := by simp [logStatement, allow]
  simpa [role, hlog] using hstatements

end Permission

/-! ## The keys and the plan, and the deployment -/

namespace ApiKeys

variable {provider : Provider} {api : Api} {deploymentId : String}

theorem refersTo_keyResource {name : String} :
    RefersTo id (keyResource provider api deploymentId name) ↔
      RefersTo id api.restApiId := by
  simp [keyResource]

theorem not_refersTo_quotaMembers (limits : Quota) :
    ¬ RefersTo id (quotaMembers limits) := by
  refine Json.not_refersTo_of_inert (List.forall_mem_append.mpr
    ⟨List.forall_mem_append.mpr ⟨?_, ?_⟩, ?_⟩)
  · exact inert_optionalProperty (by decide) (by decide) Json.not_refersTo_nat _
  · exact inert_optionalProperty (by decide) (by decide) Json.not_refersTo_nat _
  · exact inert_optionalProperty (by decide) (by decide) Json.not_refersTo_str _

theorem not_refersTo_rate (rate : Rate) : ¬ RefersTo id rate.toJson := by
  cases rate with
  | finite x => exact Json.not_refersTo_num _
  | infinite | nan => exact Json.not_refersTo_null

theorem not_refersTo_throttleMembers (limits : Throttle) :
    ¬ RefersTo id (throttleMembers limits) := by
  refine Json.not_refersTo_of_inert (List.forall_mem_append.mpr ⟨?_, ?_⟩)
  · exact inert_optionalProperty (by decide) (by decide) Json.not_refersTo_nat _
  · exact inert_optionalProperty (by decide) (by decide) not_refersTo_rate _

theorem refersTo_planResource :
    RefersTo id (planResource provider api deploymentId) ↔
      RefersTo id api.restApiId := by
  cases hplan : provider.usagePlan with
  | none => simp [planResource, hplan]
  | some plan =>
      simp [planResource, hplan, not_refersTo_quotaMembers,
        not_refersTo_throttleMembers]

theorem refersTo_bindingResource {n : Nat} :
    RefersTo id (bindingResource n) ↔ LogicalId.apiKey n = id ∨
      LogicalId.usagePlan = id := by
  simp [bindingResource]

end ApiKeys

namespace Deployment

variable {provider : Provider} {api : Api}

theorem refersTo_resource {methodIds : List String} :
    RefersTo id (resource provider api methodIds) ↔
      RefersTo id api.restApiId := by
  simp [resource]

theorem refersTo_output : RefersTo id (output provider api) ↔
    RefersTo id api.restApiId ∨ "AWS::Region" = id ∨ "AWS::URLSuffix" = id := by
  simp [output, Intrinsic.concat]

end Deployment

/-! ## Methods -/

/-- What an event takes over from the configuration does not refer to
the resource. -/
structure Event.Silent (id : String) (event : Event) : Prop where
  authorizerId : ∀ value, event.authorizerId = some value → ¬ RefersTo id value
  roleArn : ∀ value, event.roleArn = some value → ¬ RefersTo id value
  target : ¬ RefersTo id event.target.resourceName.toJson

namespace MappingTemplate

theorem not_refersTo_stream {target : StreamTarget}
    (h : ¬ RefersTo id target.stream.toJson) :
    ¬ RefersTo id (stream target).toJson := by
  unfold stream
  cases target.action <;>
    · rw [Substitution.refersTo_cons (by decide) (by decide)]
      simp [h]

theorem not_refersTo_topic {target : TopicTarget}
    (h : ¬ RefersTo id target.topic.toJson) :
    ¬ RefersTo id (topic target).toJson := by
  unfold topic
  rw [Substitution.refersTo_cons (by decide) (by decide)]
  simp [h]

theorem not_refersTo_item {target : ItemTarget}
    (h : ¬ RefersTo id target.table.toJson) :
    ¬ RefersTo id (item target).toJson := by
  have hkeys : ¬ SomeRefers id
      ((keyParts target).flatMap fun part => keyValues part.1 part.2) := by
    rintro ⟨entry, hentry, refers⟩
    obtain ⟨part, -, hentry⟩ := List.mem_flatMap.mp hentry
    have htext : ∃ text, entry.2 = .str text := by
      simp only [keyValues, List.mem_cons, List.not_mem_nil, or_false] at hentry
      rcases hentry with rfl | rfl | rfl <;> exact ⟨_, rfl⟩
    obtain ⟨text, htext⟩ := htext
    rw [htext] at refers
    exact Json.not_refersTo_str text refers
  have hcondition : ¬ SomeRefers id (target.condition.map fun condition =>
      ("ConditionExpression", Json.str condition)).toList := by
    cases target.condition <;> simp
  unfold item
  simp only [List.cons_append, List.nil_append]
  rw [Substitution.refersTo_cons (by decide) (by decide),
    Json.someRefers_append]
  exact not_or.mpr ⟨h, not_or.mpr ⟨hkeys, hcondition⟩⟩

theorem not_refersTo_bus {target : BusTarget}
    (h : ¬ RefersTo id target.bus.toJson) :
    ¬ RefersTo id (bus target).toJson := by
  unfold bus
  rw [Substitution.refersTo_cons (by decide) (by decide)]
  simp [h]

theorem not_refersTo_ofEvent? {event : Event}
    (h : ¬ RefersTo id event.target.resourceName.toJson)
    {templates : Fields Json} (htemplates : ofEvent? event = some templates) :
    ¬ RefersTo id (.obj templates) := by
  obtain ⟨defaults, hdefaults, rfl⟩ := Option.map_eq_some_iff.mp htemplates
  suffices hsilent : "application/json" ∈ Fields.keys defaults ∧
      ¬ SomeRefers id defaults from
    Json.not_refersTo_setAll_texts hsilent.1 (by decide) (by decide) hsilent.2 _
  have both {substitution : Substitution}
      (hsilent : ¬ RefersTo id substitution.toJson) :
      "application/json" ∈ Fields.keys (bothTypes substitution) ∧
        ¬ SomeRefers id (bothTypes substitution) :=
    ⟨List.mem_cons_self, by simp [bothTypes, hsilent]⟩
  cases htarget : event.target with
  | s3 target => rw [htarget] at hdefaults; cases hdefaults
  | sqs target =>
      rw [htarget] at hdefaults
      obtain rfl := Option.some.inj hdefaults
      exact ⟨List.mem_cons_self, by simp⟩
  | kinesis target =>
      rw [htarget] at hdefaults h
      obtain rfl := Option.some.inj hdefaults
      exact both (not_refersTo_stream h)
  | sns target =>
      rw [htarget] at hdefaults h
      obtain rfl := Option.some.inj hdefaults
      exact both (not_refersTo_topic h)
  | dynamodb target =>
      rw [htarget] at hdefaults h
      obtain rfl := Option.some.inj hdefaults
      exact both (not_refersTo_item h)
  | eventBridge target =>
      rw [htarget] at hdefaults h
      obtain rfl := Option.some.inj hdefaults
      exact both (not_refersTo_bus h)

end MappingTemplate

namespace Integration

/-- The integration has no reference to the resource. -/
structure Silent (id : String) (integration : Integration) : Prop where
  uri : ¬ RefersTo id integration.uri
  requestParameters : ¬ RefersTo id (.obj integration.requestParameters)
  requestTemplates : ∀ templates, integration.requestTemplates
    = some templates →
    ¬ RefersTo id (.obj templates)
  methodParameters : ¬ RefersTo id (.obj integration.methodParameters)
  successParameters : ∀ entry ∈ integration.successParameters,
    Json.Inert id entry

variable {event : Event}

theorem silent_named {uri : Json} (huri : ¬ RefersTo id uri)
    (h : ¬ RefersTo id event.target.resourceName.toJson) :
    (named uri event).Silent id :=
  ⟨huri, Json.not_refersTo_empty, fun _ =>
    MappingTemplate.not_refersTo_ofEvent? h, Json.not_refersTo_empty,
    fun _ hentry => absurd hentry List.not_mem_nil⟩

theorem not_refersTo_address (pieces : List Piece) :
    ¬ RefersTo id (address pieces []) :=
  Substitution.not_refersTo_of_nil _

theorem silent_queue {target : QueueTarget}
    (htarget : event.target = .sqs target)
    (h : ¬ RefersTo id event.target.resourceName.toJson) :
    (queue event target).Silent id := by
  have huri : ¬ RefersTo id (queue event target).uri := by
    dsimp only [queue, named, address]
    rw [Substitution.refersTo_cons (by decide) (by decide)]
    rw [htarget] at h
    exact not_or.mpr ⟨h, Json.someRefers_nil⟩
  have hnamed := silent_named huri h
  refine ⟨huri, ?_, hnamed.requestTemplates, ?_, hnamed.successParameters⟩
  · exact Json.not_refersTo_setAll_texts List.mem_cons_self
      (by decide) (by decide) (by simp) target.requestParameters
  · exact Json.not_refersTo_mapValues_bool (fun required => required)
      target.acceptParameters

theorem silent_topic (h : ¬ RefersTo id event.target.resourceName.toJson) :
    (topic event).Silent id := by
  have hnamed : (named (address [.plain "sns:path//"] []) event).Silent id :=
    silent_named (not_refersTo_address _) h
  refine ⟨hnamed.uri, ?_, hnamed.requestTemplates, hnamed.methodParameters,
    hnamed.successParameters⟩
  show ¬ RefersTo id
    (.obj [(requestParameter "header" "Content-Type", constant _)])
  rw [Json.refersTo_obj_cons (by decide) (by decide)]
  simp

theorem silent_bus (h : ¬ RefersTo id event.target.resourceName.toJson) :
    (bus event).Silent id := by
  have hnamed : (named (address [.plain "events:action/PutEvents"] [])
      event).Silent id :=
    silent_named (not_refersTo_address _) h
  refine ⟨hnamed.uri, ?_, hnamed.requestTemplates, hnamed.methodParameters,
    hnamed.successParameters⟩
  show ¬ RefersTo id
    (.obj [(requestParameter "header" "X-Amz-Target", constant _),
      (requestParameter "header" "Content-Type", constant _)])
  rw [Json.refersTo_obj_cons (by decide) (by decide)]
  simp

theorem not_refersTo_objectParameters {target : ObjectTarget}
    (h : ¬ RefersTo id target.bucket.toJson) :
    ¬ RefersTo id (.obj (objectParameters target)) := by
  have hname : requestParameter "path" "bucket" ≠ "Ref" ∧
      requestParameter "path" "bucket" ≠ "Fn::GetAtt" := by decide
  refine Json.not_refersTo_setAll_texts List.mem_cons_self hname.1 hname.2 ?_ _
  have hbucket : ¬ RefersTo id (Substitution.toJson
      ⟨[.plain "'", .hole Service.s3.hole, .plain "'"],
        [(Service.s3.hole, target.bucket.toJson)]⟩) := by
    rw [Substitution.refersTo_cons (by decide) (by decide)]
    exact not_or.mpr ⟨h, Json.someRefers_nil⟩
  cases target.key <;> cases target.partialContent <;> simp [hbucket]

theorem flags_readParameters (parameters : Fields Json) :
    ∀ entry ∈ readParameters parameters, ∃ b, entry.2 = .bool b := by
  intro entry hentry
  rcases Fields.mem_setAll hentry with hmem | hmem
  · cases hmem
  · obtain ⟨source, -, heq⟩ := List.mem_map.mp hmem
    exact ⟨true, (Prod.mk.inj heq).2.symm⟩

theorem not_refersTo_readParameters (parameters : Fields Json) :
    ¬ RefersTo id (.obj (readParameters parameters)) :=
  Json.not_refersTo_of_bools (flags_readParameters parameters)

theorem silent_object {target : ObjectTarget}
    (h : ¬ RefersTo id target.bucket.toJson) :
    (object target).Silent id := by
  refine ⟨not_refersTo_address _, not_refersTo_objectParameters h,
    fun templates htemplates => ?_, not_refersTo_readParameters _,
    fun entry hentry => ?_⟩
  · cases htemplates
  · obtain ⟨header, -, rfl⟩ := List.mem_map.mp hentry
    exact inert_responseHeader header (Json.not_refersTo_str _)

theorem silent_ofEvent (h : event.Silent id) : (ofEvent event).Silent id := by
  unfold ofEvent
  split
  · exact silent_named (not_refersTo_address _) h.target
  · next target htarget => exact silent_queue htarget h.target
  · next target htarget =>
      have hbucket := h.target
      rw [htarget] at hbucket
      exact silent_object hbucket
  · exact silent_topic h.target
  · exact silent_named (not_refersTo_address _) h.target
  · exact silent_bus h.target

end Integration

namespace Method

variable {event : Event} {integration : Integration}

/-- What holds of the header with the allowed origin, and of the headers of a
successful response, holds of the headers of every response. -/
theorem forall_responseParameters {P : String × Json → Prop}
    (origin : ∀ policy : CorsPolicy,
      P (allowOriginHeader, constant policy.allowOrigin))
    (success : ∀ entry ∈ integration.successParameters, P entry)
    (outcome : Outcome) :
    ∀ entry ∈ responseParameters event integration outcome, P entry := by
  obtain ⟨given, hgiven, heq⟩ : ∃ given : Fields Json,
      (∀ entry ∈ given, P entry) ∧
      responseParameters event integration outcome = if outcome = .success
        then Fields.setAll given integration.successParameters else given := by
    unfold responseParameters
    cases event.cors with
    | none => exact ⟨[], List.forall_mem_nil _, rfl⟩
    | some policy =>
        exact ⟨_, List.forall_mem_singleton.mpr (origin policy), rfl⟩
  intro entry hentry
  rw [heq] at hentry
  split at hentry
  · exact (Fields.mem_setAll hentry).elim (hgiven entry) (success entry)
  · exact hgiven entry hentry

theorem inert_responseParameters (h : integration.Silent id)
    (outcome : Outcome) :
    ∀ entry ∈ responseParameters event integration outcome,
      Json.Inert id entry :=
  forall_responseParameters (fun _ =>
    inert_responseHeader _ (not_refersTo_constant _))
    h.successParameters outcome

theorem not_refersTo_integrationResponse (h : integration.Silent id)
    (kind : ResponseKind) :
    ¬ RefersTo id (integrationResponse event integration kind) := by
  have hparameters : ¬ RefersTo id
      (.obj (responseParameters event integration kind.outcome)) :=
    Json.not_refersTo_of_inert (inert_responseParameters h kind.outcome)
  have htemplates : ¬ RefersTo id
      (.obj (responseTemplates event kind.outcome)) :=
    Json.not_refersTo_of_inert
      (inert_optionalProperty (by decide) (by decide) Json.not_refersTo_str _)
  simp [integrationResponse, hparameters, htemplates]

theorem not_refersTo_methodResponse (kind : ResponseKind) :
    ¬ RefersTo id (methodResponse event integration kind) := by
  have hflags : ¬ RefersTo id (.obj (Fields.mapValues (fun _ => .bool true)
      (responseParameters event integration kind.outcome))) :=
    Json.not_refersTo_mapValues_bool (fun _ => true) _
  simp [methodResponse, hflags, Json.empty]

theorem not_refersTo_integrationBlock (h : event.Silent id)
    (hrole : LogicalId.role event.service ≠ id)
    (silent : integration.Silent id) :
    ¬ RefersTo id (integrationBlock event integration) := by
  have hcredentials : ¬ RefersTo id (credentials event) := by
    unfold credentials
    split
    · next role hsome => exact h.roleArn role hsome
    · rwa [Json.refersTo_getAtt]
  have hparameters : ¬ SomeRefers id (optionalProperty "RequestParameters"
      (if integration.requestParameters.isEmpty then none
        else some (.obj integration.requestParameters))) := by
    split <;> simp [silent.requestParameters]
  have htemplates : ¬ SomeRefers id
      (optionalProperty "RequestTemplates"
        (integration.requestTemplates.map Json.obj)) := by
    cases htemplates : integration.requestTemplates with
    | none => simp
    | some templates => simp [silent.requestTemplates templates htemplates]
  have hresponses : ¬ RefersTo id
      (.arr ((responseKinds integration.partialContent).map
        (integrationResponse event integration))) := by
    rw [Json.refersTo_arr]
    rintro ⟨response, hmem, refers⟩
    obtain ⟨kind, -, rfl⟩ := List.mem_map.mp hmem
    exact not_refersTo_integrationResponse silent kind refers
  unfold integrationBlock
  simp only [List.cons_append, List.nil_append]
  rw [Json.refersTo_obj_cons (by decide) (by decide)]
  simp only [Json.someRefers_cons, Json.someRefers_append,
    Json.not_refersTo_str, hcredentials, silent.uri, hparameters, htemplates,
    hresponses, Json.someRefers_nil, or_self, not_false_iff]

theorem refersTo_resource {api : Api} (h : event.Silent id)
    (hrole : LogicalId.role event.service ≠ id) :
    RefersTo id (resource api event) ↔
      RefersTo id (api.resourceId event.path) ∨ RefersTo id api.restApiId := by
  have silent := Integration.silent_ofEvent h
  have hauthorizer : ¬ SomeRefers id
      (optionalProperty "AuthorizerId" event.authorizerId) := by
    rw [Json.someRefers_optionalProperty]
    rintro ⟨value, hvalue, refers⟩
    exact h.authorizerId value hvalue refers
  have hscopes : ¬ SomeRefers id (optionalProperty "AuthorizationScopes"
      (event.authorizationScopes.map Json.strings)) := by
    cases event.authorizationScopes <;> simp
  have hblock := not_refersTo_integrationBlock h hrole silent
  have hresponses : ¬ RefersTo id
      (.arr ((responseKinds (Integration.ofEvent event).partialContent).map
        (methodResponse event (Integration.ofEvent event)))) := by
    rw [Json.refersTo_arr]
    rintro ⟨response, hmem, refers⟩
    obtain ⟨kind, -, rfl⟩ := List.mem_map.mp hmem
    exact not_refersTo_methodResponse kind refers
  unfold resource resourceOf
  simp only [List.cons_append, List.nil_append]
  rw [Json.refersTo_obj_cons (by decide) (by decide), Json.someRefers_cons,
    Json.refersTo_obj_cons (by decide) (by decide)]
  simp only [Json.someRefers_cons, Json.someRefers_append, Json.someRefers_nil,
    Json.not_refersTo_str, Json.not_refersTo_bool, silent.methodParameters,
    hauthorizer, hscopes, hblock, hresponses, false_or, or_false]

end Method

end GatewayStack
