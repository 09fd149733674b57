import GatewayStack.Proofs.Acceptance
import GatewayStack.Proofs.Merge
import GatewayStack.Stack.Backend

/-!
# Generated methods repeat no name

Every mapping in a generated method is built from fixed names or written name by
name, so it has each of its names once. Four values are taken as they were
configured: the authorizer, the role, and the ids of the API and of its existing
resources. Those repeat no name when the configuration does not, and a project
that was read from a text does not (`Project.keyed_of_load?`).

The parameters that a queue accepts are configured as well, but they are sorted
by name when they are read.
-/

namespace GatewayStack

open Json (Keyed keyed_obj keyed_str keyed_bool keyed_arr)

/-- The configured parts of an event repeat no name. -/
structure Event.Keyed (event : Event) : Prop where
  authorizerId : ∀ value, event.authorizerId = some value → value.Keyed
  roleArn : ∀ value, event.roleArn = some value → value.Keyed
  accepted : ∀ target, event.target = .sqs target →
    Fields.Distinct target.acceptParameters

/-- The configured references to an existing API repeat no name. -/
structure GatewaySettings.Keyed (gateway : GatewaySettings) : Prop where
  restApiId : ∀ value, gateway.restApiId = some value → value.Keyed
  rootResourceId : ∀ value, gateway.rootResourceId = some value → value.Keyed
  resources : ∀ entry ∈ gateway.resources, entry.2.Keyed

theorem GatewaySettings.keyed_empty : GatewaySettings.empty.Keyed := by
  refine ⟨fun value h => ?_, fun value h => ?_, fun entry h => ?_⟩ <;> cases h

/-! ## What a descriptor brings -/

namespace Schema

variable {body : Section} {proxy : ServiceProxy}

theorem keyed_of_intrinsic? {name : String} {result : Option Json}
    (h : body.intrinsic? name = .ok result)
    (keyed : (Json.obj body.fields).Keyed) :
    ∀ value, result = some value → value.Keyed := by
  intro value hvalue
  rcases Section.optional_eq_ok.mp h with ⟨-, rfl⟩ |
    ⟨given, read, hgiven, hread, rfl⟩
  · cases hvalue
  · have hsame : read = given := by
      cases given <;> simp [Json.intrinsic?] at hread <;> exact hread.symm
    rw [← Option.some.inj hvalue, hsame]
    exact keyed.get? hgiven.1

/-- A mapping that is read in the order of its names. -/
theorem distinct_of_sortedMap {α : Type} {shape : Shape}
    {read : Json → Option (Fields α)} {name : String} {result : Fields α}
    (h : (body.optional shape (fun value => (read value).map Fields.sorted)
        name).map (·.getD [])
      = .ok result) : Fields.Distinct result := by
  obtain ⟨found, hfound, rfl⟩ := map_eq_ok.mp h
  rcases Section.optional_eq_ok.mp hfound with ⟨-, rfl⟩ |
    ⟨given, read, -, hread, rfl⟩
  · exact List.nodup_nil
  · obtain ⟨entries, -, rfl⟩ := Option.map_eq_some_iff.mp hread
    exact Fields.distinct_sorted entries

theorem distinct_of_boolMap {name : String} {result : Fields Bool}
    (h : body.boolMap name = .ok result) : Fields.Distinct result :=
  distinct_of_sortedMap h

theorem distinct_of_stringMap {name : String} {result : Fields String}
    (h : body.stringMap name = .ok result) : Fields.Distinct result :=
  distinct_of_sortedMap h

theorem readBody_parts (h : readBody body = .ok proxy) :
    body.intrinsic? "authorizerId" = .ok proxy.http.authorizerId ∧
      body.intrinsic? "roleArn" = .ok proxy.http.roleArn ∧
      readTarget body = .ok proxy.target := by
  obtain ⟨hhttp, htarget⟩ := readBody_steps h
  obtain ⟨-, -, haccess, -, hrole⟩ := readBinding_steps hhttp
  exact ⟨(readAccess_steps haccess).1, hrole, htarget⟩

theorem distinct_of_readTarget {target : QueueTarget}
    (h : readTarget body = .ok (.sqs target)) :
    Fields.Distinct target.acceptParameters := by
  unfold readTarget at h
  split at h <;> obtain ⟨found, hfound, heq⟩ := map_eq_ok.mp h <;> cases heq
  obtain ⟨queue, -, hfound⟩ := bind_eq_ok.mp hfound
  obtain ⟨requested, -, hfound⟩ := bind_eq_ok.mp hfound
  obtain ⟨accepted, haccepted, hfound⟩ := bind_eq_ok.mp hfound
  rw [← Except.ok.inj hfound]
  exact distinct_of_boolMap haccepted

theorem keyed_of_readDescriptor {descriptor : Json} (keyed : descriptor.Keyed)
    (h : readDescriptor descriptor = .ok proxy) :
    (Event.ofProxy proxy).Keyed := by
  obtain ⟨service, fields, rfl, hbody⟩ := readDescriptor_eq_ok.mp h
  obtain ⟨hid, hrole, htarget⟩ := readBody_parts hbody
  have hown : Fields.get? [(service.tag, Json.obj fields)] service.tag
      = some (.obj fields) := by
    rw [Fields.get?, if_pos rfl]
  have hfields : (Json.obj fields).Keyed := keyed.get? hown
  refine ⟨keyed_of_intrinsic? hid hfields, keyed_of_intrinsic? hrole hfields,
    fun target hsqs => ?_⟩
  rw [show proxy.target = .sqs target from hsqs] at htarget
  exact distinct_of_readTarget htarget

end Schema

theorem keyed_events {descriptors : List Json} {proxies : List ServiceProxy}
    (hparse : parse descriptors = .ok proxies)
    (keyed : ∀ descriptor ∈ descriptors, descriptor.Keyed) :
    ∀ event ∈ (Normalized.ofProxies proxies).events, event.Keyed := by
  intro event hevent
  obtain ⟨proxy, hproxy, rfl⟩ := List.mem_map.mp hevent
  obtain ⟨-, rfl⟩ := Schema.parse_eq_ok_iff.mp hparse
  obtain ⟨⟨i, found⟩, hplaced, rfl⟩ := List.mem_map.mp hproxy
  obtain ⟨descriptor, hdescriptor, hread⟩ := Schema.mem_placed.mp hplaced
  exact Schema.keyed_of_readDescriptor
    (keyed _ (List.mem_of_getElem? hdescriptor)) hread

/-! ## References to the API -/

theorem Api.keyed_restApiId {provider : Provider} (h : provider.gateway.Keyed) :
    (Api.ofProvider provider).restApiId.Keyed := by
  show (provider.gateway.restApiId.getD _).Keyed
  cases hid : provider.gateway.restApiId with
  | none => exact keyed_obj (by simp [Fields.Distinct]) (by simp)
  | some id => exact h.restApiId id hid

/-- An existing resource is one that is configured. -/
theorem Api.mem_resources_of_existing {provider : Provider}
    {path : String} {id : Json}
    (h : Fields.get? (Api.ofProvider provider).existing path = some id) :
    ∃ entry ∈ provider.gateway.resources, entry.2 = id := by
  rcases Fields.mem_setAll (Fields.mem_of_get? h) with hmem | hmem
  · cases hmem
  · obtain ⟨entry, hentry, heq⟩ := List.mem_map.mp hmem
    exact ⟨entry, hentry, (Prod.mk.inj heq).2⟩

theorem Api.keyed_resourceId {provider : Provider} (h : provider.gateway.Keyed)
    (path : String) :
    ((Api.ofProvider provider).resourceId path).Keyed := by
  unfold Api.resourceId
  split
  · show (provider.gateway.rootResourceId.getD _).Keyed
    cases hid : provider.gateway.rootResourceId with
    | none => exact keyed_obj (by simp [Fields.Distinct]) (by simp)
    | some id => exact h.rootResourceId id hid
  · split
    · next id hid =>
        obtain ⟨entry, hentry, rfl⟩ := Api.mem_resources_of_existing hid
        exact h.resources entry hentry
    · exact keyed_obj (by simp [Fields.Distinct]) (by simp)

/-! ## Mappings of a method -/

theorem forall_optionalProperty {name : String} {value : Option Json}
    {P : String × Json → Prop} (h : ∀ v, value = some v → P (name, v)) :
    ∀ entry ∈ optionalProperty name value, P entry := by
  intro entry hentry
  unfold optionalProperty at hentry
  split at hentry
  · next v => rw [List.mem_singleton.mp hentry]; exact h v rfl
  · cases hentry

theorem Substitution.keyed_toJson (substitution : Substitution) :
    substitution.toJson.Keyed := by
  refine keyed_obj (by simp [Fields.Distinct])
    (List.forall_mem_singleton.mpr ?_)
  show Keyed (if _ then _ else _)
  split <;> simp

theorem keyed_obj_of_plain {fields : Fields Json}
    (distinct : Fields.Distinct fields)
    (plain : ∀ entry ∈ fields, entry.2.fields? = none) :
    (Json.obj fields).Keyed :=
  keyed_obj distinct fun entry hentry =>
    Json.keyed_of_plain (plain entry hentry)

/-- Configured texts on top of generated entries. -/
theorem keyed_setAll_texts {generated : Fields Json}
    (distinct : Fields.Distinct generated)
    (keyed : ∀ entry ∈ generated, entry.2.Keyed) (configured : Fields String) :
    (Json.obj (Fields.setAll generated
      (Fields.mapValues Json.str configured))).Keyed := by
  refine keyed_obj (Fields.distinct_setAll distinct _) fun entry hentry => ?_
  rcases Fields.mem_setAll hentry with hmem | hmem
  · exact keyed entry hmem
  · obtain ⟨text, -, heq⟩ := List.mem_map.mp hmem
    rw [← (Prod.mk.inj heq).2]
    exact keyed_str text.2

theorem MappingTemplate.keyed_ofEvent? {event : Event} {templates : Fields Json}
    (h : MappingTemplate.ofEvent? event = some templates) :
    (Json.obj templates).Keyed := by
  obtain ⟨defaults, hdefaults, rfl⟩ := Option.map_eq_some_iff.mp h
  have both : ∀ substitution : Substitution,
      Fields.Distinct (MappingTemplate.bothTypes substitution) ∧
        ∀ entry ∈ MappingTemplate.bothTypes substitution, entry.2.Keyed := by
    intro substitution
    refine ⟨by simp [Fields.Distinct, MappingTemplate.bothTypes], ?_⟩
    simp [MappingTemplate.bothTypes, Substitution.keyed_toJson]
  have hkeyed : Fields.Distinct defaults ∧ ∀ entry ∈ defaults,
      entry.2.Keyed := by
    cases htarget : event.target with
    | sqs target =>
        rw [htarget] at hdefaults
        obtain rfl := Option.some.inj hdefaults
        exact ⟨by simp [Fields.Distinct], by simp⟩
    | s3 target => rw [htarget] at hdefaults; cases hdefaults
    | kinesis target | sns target | dynamodb target | eventBridge target =>
        rw [htarget] at hdefaults
        obtain rfl := Option.some.inj hdefaults
        exact both _
  exact keyed_setAll_texts hkeyed.1 hkeyed.2 _

/-- The mappings of an integration repeat no name. -/
structure Integration.Keyed (integration : Integration) : Prop where
  uri : integration.uri.Keyed
  requestParameters : (Json.obj integration.requestParameters).Keyed
  requestTemplates : ∀ templates, integration.requestTemplates
    = some templates →
    (Json.obj templates).Keyed
  methodParameters : (Json.obj integration.methodParameters).Keyed

theorem keyed_empty : (Json.obj []).Keyed := keyed_obj List.nodup_nil (by simp)

namespace Integration

theorem keyed_address (pieces : List Piece) (values : Fields Json) :
    (address pieces values).Keyed := Substitution.keyed_toJson _

theorem keyed_named {uri : Json} (h : uri.Keyed) (event : Event) :
    (named uri event).Keyed :=
  ⟨h, keyed_empty, fun _ => MappingTemplate.keyed_ofEvent?, keyed_empty⟩

theorem keyed_withConfigured {generated : Fields Json}
    (distinct : Fields.Distinct generated)
    (keyed : ∀ entry ∈ generated, entry.2.Keyed) (configured : Fields String) :
    (Json.obj (withConfigured generated configured)).Keyed :=
  keyed_setAll_texts distinct keyed configured

theorem keyed_queue {event : Event} {target : QueueTarget}
    (distinct : Fields.Distinct target.acceptParameters) :
    (queue event target).Keyed := by
  dsimp only [queue, named]
  refine ⟨keyed_address _ _, ?_, fun _ => MappingTemplate.keyed_ofEvent?, ?_⟩
  · have distinctNames : List.Nodup [requestParameter "querystring" "Action",
        requestParameter "querystring" "MessageBody"] := by decide
    refine keyed_withConfigured ?_ (by simp [constant]) _
    exact distinctNames
  · refine keyed_obj_of_plain (by simpa [Fields.Distinct] using distinct)
      fun entry hentry => ?_
    obtain ⟨required, -, heq⟩ := List.mem_map.mp hentry
    rw [← heq]
    rfl

theorem keyed_topic (event : Event) : (topic event).Keyed := by
  dsimp only [topic, named]
  refine ⟨keyed_address _ _, ?_, fun _ =>
    MappingTemplate.keyed_ofEvent?, keyed_empty⟩
  exact keyed_obj (by simp [Fields.Distinct]) (by simp [constant])

theorem keyed_bus (event : Event) : (bus event).Keyed := by
  dsimp only [bus, named]
  refine ⟨keyed_address _ _, ?_, fun _ =>
    MappingTemplate.keyed_ofEvent?, keyed_empty⟩
  have distinctNames : List.Nodup [requestParameter "header" "X-Amz-Target",
      requestParameter "header" "Content-Type"] := by decide
  exact keyed_obj distinctNames (by simp [constant])

theorem keyed_objectParameters (target : ObjectTarget) :
    (Json.obj (objectParameters target)).Keyed := by
  unfold objectParameters
  have distinctNames : List.Nodup [requestParameter "path" "bucket",
      requestParameter "path" "object",
      requestParameter "header" "Range"] := by decide
  refine keyed_withConfigured ?_ ?_ _
  · cases target.partialContent
    · exact distinctNames.sublist (by simp)
    · exact distinctNames
  · cases target.key <;> cases target.partialContent <;>
      simp [Substitution.keyed_toJson, constant]

theorem keyed_readParameters (parameters : Fields Json) :
    (Json.obj (readParameters parameters)).Keyed := by
  refine keyed_obj_of_plain (Fields.distinct_setAll Fields.distinct_nil _)
    fun entry hentry => ?_
  rcases Fields.mem_setAll hentry with hmem | hmem
  · cases hmem
  · obtain ⟨source, -, heq⟩ := List.mem_map.mp hmem
    rw [← (Prod.mk.inj heq).2]
    rfl

theorem keyed_object (target : ObjectTarget) : (object target).Keyed := by
  dsimp only [object]
  refine ⟨keyed_address _ _, keyed_objectParameters target, ?_,
    keyed_readParameters _⟩
  intro templates h
  cases h

theorem keyed_ofEvent {event : Event} (h : event.Keyed) :
    (ofEvent event).Keyed := by
  unfold ofEvent
  split
  · exact keyed_named (keyed_address _ _) event
  · next target htarget => exact keyed_queue (h.accepted target htarget)
  · exact keyed_object _
  · exact keyed_topic event
  · exact keyed_named (keyed_address _ _) event
  · exact keyed_bus event

end Integration

/-! ## Methods -/

theorem Method.keyed_integrationBlock {event : Event}
    {integration : Integration} (hrole : ∀ value, event.roleArn = some value →
      value.Keyed) (h : integration.Keyed) :
    (Method.integrationBlock event integration).Keyed := by
  have hcredentials : (Method.credentials event).Keyed := by
    unfold Method.credentials
    split
    · next role hsome => exact hrole role hsome
    · exact keyed_obj (by simp [Fields.Distinct]) (by simp)
  refine keyed_obj ?_ ?_
  · have distinctNames : List.Nodup ["IntegrationHttpMethod", "Type",
        "Credentials", "Uri", "PassthroughBehavior", "RequestParameters",
        "RequestTemplates", "IntegrationResponses"] := by decide
    refine distinctNames.sublist ?_
    cases integration.requestTemplates
      <;> cases integration.requestParameters <;>
      simp [optionalProperty]
  · simp only [List.forall_mem_append, List.forall_mem_cons, List.not_mem_nil,
      false_imp_iff, implies_true, and_true, keyed_str, keyed_arr, true_and]
    refine ⟨⟨⟨hcredentials, h.uri⟩,
      forall_optionalProperty fun value hvalue => ?_⟩,
      forall_optionalProperty fun value hvalue => ?_⟩
    · split at hvalue
      · cases hvalue
      · rw [← Option.some.inj hvalue]
        exact h.requestParameters
    · obtain ⟨templates, htemplates, rfl⟩ := Option.map_eq_some_iff.mp hvalue
      exact h.requestTemplates templates htemplates

theorem Method.distinct_properties (verb parameters authorization : Json)
    (authorizer scopes : Option Json)
    (keyRequired path api integration responses : Json) :
    Fields.Distinct ([("HttpMethod", verb), ("RequestParameters", parameters),
        ("AuthorizationType", authorization)] ++
        optionalProperty "AuthorizerId" authorizer
      ++ optionalProperty "AuthorizationScopes" scopes
      ++ [("ApiKeyRequired", keyRequired), ("ResourceId", path),
        ("RestApiId", api), ("Integration", integration),
        ("MethodResponses", responses)]) := by
  have distinctNames : List.Nodup ["HttpMethod", "RequestParameters",
      "AuthorizationType", "AuthorizerId", "AuthorizationScopes",
      "ApiKeyRequired", "ResourceId", "RestApiId", "Integration",
      "MethodResponses"] := by decide
  refine distinctNames.sublist ?_
  cases authorizer <;> cases scopes <;> simp [optionalProperty]

theorem Method.keyed_resource {provider : Provider}
    (hgateway : provider.gateway.Keyed) {event : Event} (h : event.Keyed) :
    (Method.resource (Api.ofProvider provider) event).Keyed := by
  have hintegration := Integration.keyed_ofEvent h
  have hblock := Method.keyed_integrationBlock h.roleArn hintegration
  refine keyed_obj (by simp [Fields.Distinct]) ?_
  simp only [List.forall_mem_cons, List.not_mem_nil, false_imp_iff,
    implies_true, and_true, keyed_str, true_and]
  refine keyed_obj (Method.distinct_properties ..) ?_
  simp only [List.forall_mem_append, List.forall_mem_cons, List.not_mem_nil,
    false_imp_iff, implies_true, and_true, keyed_str, keyed_arr,
    keyed_bool, true_and]
  refine ⟨⟨⟨hintegration.methodParameters,
    forall_optionalProperty h.authorizerId⟩,
    forall_optionalProperty fun value hvalue => ?_⟩,
    Api.keyed_resourceId hgateway _, Api.keyed_restApiId hgateway, hblock⟩
  obtain ⟨scopes, -, rfl⟩ := Option.map_eq_some_iff.mp hvalue
  exact keyed_arr _

theorem Preflight.keyed_resource {provider : Provider}
    (hgateway : provider.gateway.Keyed) (path : String) (policy : CorsPolicy) :
    (Preflight.resource (Api.ofProvider provider) path policy).Keyed := by
  refine keyed_obj (by simp [Fields.Distinct]) ?_
  simp only [List.forall_mem_cons, List.not_mem_nil, false_imp_iff,
    implies_true, and_true, keyed_str, true_and]
  refine keyed_obj (by simp [Fields.Distinct]) ?_
  simp only [List.forall_mem_cons, List.not_mem_nil, false_imp_iff,
    implies_true, and_true, keyed_str, keyed_arr, true_and]
  refine ⟨keyed_empty, ?_, Api.keyed_resourceId hgateway path,
    Api.keyed_restApiId hgateway⟩
  refine keyed_obj (by simp [Fields.Distinct]) ?_
  simp only [List.forall_mem_cons, List.not_mem_nil, false_imp_iff,
    implies_true, and_true, keyed_str, keyed_arr, true_and]
  exact keyed_obj_of_plain (by simp [Fields.Distinct]) (by simp [Json.fields?])

end GatewayStack
