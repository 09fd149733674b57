import GatewayStack.Proofs.AcceptedProxies
import GatewayStack.Proofs.ExtendedRoles
import GatewayStack.Proofs.RequestSources
import GatewayStack.Proofs.Substitutions

/-!
# Names of resources are written back

Every service has one field for the name of its resource, and one kind of
reference that may stand there. The name is read from the value that is
configured, and wherever something is generated that names the resource,
that very value goes into a hole of a substitution: in the resources that
the policy of a shared role allows, and in the method, where the place
depends on the service (`resource_names_round_trip`). A queue is named by
the address of its integration, a bucket by a parameter, and the others by
the templates of their requests.

A parameter or a template that was configured takes the place of the generated
one. Nothing is said about those here.
-/

namespace GatewayStack

open Intrinsic (Mentions)

/-! ## The field for the name -/

namespace Service

/-- The field for the name of the resource. -/
def nameField : Service → String
  | .kinesis => "streamName"
  | .sqs => "queueName"
  | .s3 => "bucket"
  | .sns => "topicName"
  | .dynamodb => "tableName"
  | .eventBridge => "eventBusName"

/-- The kind of reference that may stand there. -/
def nameForm : Service → ReferenceForm
  | .sqs => .getAtt "QueueName"
  | .sns => .getAtt "TopicName"
  | .kinesis | .s3 | .dynamodb | .eventBridge => .ref

end Service

/-- The name in the target of a body is the one in the field for it. -/
theorem Schema.name_of_readTarget {body : Section} {target : Target}
    (h : readTarget body = .ok target) :
    body.resourceName body.service.nameForm body.service.nameField
      = .ok target.resourceName := by
  unfold readTarget at h
  split at h <;> next hservice =>
    rw [hservice]
    obtain ⟨found, hfound, rfl⟩ := map_eq_ok.mp h
    first
    | exact stream_of_readStream hfound
    | exact queue_of_readQueue hfound
    | exact bucket_of_readObject hfound
    | exact topic_of_readTopic hfound
    | exact (readItem_steps hfound).1
    | exact (readBus_steps hfound).1

/-! ## Substitutions with the name in them -/

/-- A substitution that has a hole of a name in its text, and a value for it. -/
def Intrinsic.Substitutes (sub : Json) (hole : String) (value : Json) : Prop :=
  ∃ text values, sub = .obj [("Fn::Sub", .arr [.str text, .obj values])] ∧
    Fields.get? values hole = some value ∧ Mentions text hole

open Intrinsic (Substitutes)

namespace Service

/-- The hole for the name of the resource in what a method sends to the
service. -/
def requestHole : Service → String
  | .kinesis => "StreamName"
  | .sqs => "queueName"
  | .s3 => "bucket"
  | .sns => "topicName"
  | .dynamodb => "TableName"
  | .eventBridge => "EventBusName"

/-- Where an integration names the resource, as paths inside of it. -/
def namePlaces : Service → List (List String)
  | .sqs => [["Uri"]]
  | .s3 => [["RequestParameters", "integration.request.path.bucket"]]
  | .kinesis | .sns | .dynamodb | .eventBridge =>
    [["RequestTemplates", "application/json"],
      ["RequestTemplates", "application/x-www-form-urlencoded"]]

end Service

namespace Target

variable {target : Target} {sub : Substitution}

theorem substitutes_of_mem (h : sub ∈ target.substitutions) {hole : String}
    {value : Json} (hvalue : Fields.get? sub.values hole = some value) :
    Substitutes sub.toJson hole value := by
  have hmem : hole ∈ Fields.keys sub.values :=
    Fields.mem_keys_of_mem (Fields.mem_of_get? hvalue)
  have hfilled : ¬ sub.values.isEmpty := by
    rw [List.isEmpty_iff]
    exact fun hnil =>
      List.not_mem_nil (show hole ∈ Fields.keys [] from hnil ▸ hmem)
  refine ⟨sub.text, sub.values, ?_, hvalue,
    (matched_of_mem_substitutions h).tight.used _ hmem⟩
  rw [Substitution.toJson, if_neg hfilled]

theorem substitutes_arn (target : Target) : Substitutes
    (target.service.arn target.resourceName) target.service.hole
    target.resourceName.toJson := by
  have hmem : target.permitted ∈ target.substitutions :=
    List.mem_cons_of_mem _ List.mem_cons_self
  exact substitutes_of_mem hmem (if_pos rfl)

theorem substitutes_template {target : Target}
    (h : target.template? = some sub) :
    Substitutes sub.toJson target.service.requestHole
      target.resourceName.toJson := by
  have hmem : sub ∈ target.substitutions := by simp [substitutions, h]
  refine substitutes_of_mem hmem ?_
  cases target with
  | kinesis target =>
      obtain ⟨stream, partitionKey, action⟩ := target
      cases h
      cases action <;> rfl
  | sns | dynamodb | eventBridge =>
      cases h
      rfl
  | sqs | s3 => cases h

theorem defaults?_of_template? {target : Target}
    (h : target.template? = some sub) :
    MappingTemplate.defaults? target
      = some (MappingTemplate.bothTypes sub) := by
  cases target <;> cases h <;> rfl

end Target

/-! ## In a method -/

/-- The places of an integration that the configuration fills. -/
def Event.configuredPlaces (event : Event) : List (List String) :=
  (Fields.keys event.requestTemplates).map
    (fun type => ["RequestTemplates", type]) ++
    match event.target with
    | .s3 target =>
      (Fields.keys target.requestParameters).map fun name =>
        ["RequestParameters", name]
    | _ => []

namespace Method

variable (api : Api) {event : Event}

theorem at?_uri (event : Event) :
    (resource api event).at? ["Properties", "Integration", "Uri"]
      = some event.target.uri.toJson := by
  rw [at?_integration_append, ← Integration.uri_ofEvent]
  rfl

/-- A default template stays where there is no configured one. -/
theorem at?_template {sub : Substitution}
    (h : event.target.template? = some sub) {type : String}
    (htype : type = "application/json" ∨
      type = "application/x-www-form-urlencoded") (kept : ["RequestTemplates",
        type] ∉ event.configuredPlaces) :
    (resource api event).at? ["Properties", "Integration",
      "RequestTemplates", type]
        = some sub.toJson := by
  have hkept : type ∉ Fields.keys
      (Fields.mapValues Json.str event.requestTemplates) := by
    rw [Fields.keys_mapValues]
    exact fun hmem => kept (List.mem_append_left _ (List.mem_map_of_mem hmem))
  rw [at?_requestTemplate, MappingTemplate.ofEvent?,
    Target.defaults?_of_template? h, Option.map_some, Option.bind_some,
    Fields.get?_setAll_of_not_mem _ hkept]
  rcases htype with rfl | rfl <;> rfl

theorem at?_bucket {target : ObjectTarget} (h : event.target = .s3 target)
    (kept : ["RequestParameters", "integration.request.path.bucket"] ∉
      event.configuredPlaces) :
    ∃ sub, event.target.bucket? = some sub ∧ (resource api event).at?
      ["Properties", "Integration", "RequestParameters",
        "integration.request.path.bucket"]
          = some sub.toJson := by
  have hkept : "integration.request.path.bucket" ∉
      Fields.keys (Fields.mapValues Json.str target.requestParameters) := by
    rw [Fields.keys_mapValues]
    intro hmem
    refine kept (List.mem_append_right _ ?_)
    rw [h]
    exact List.mem_map_of_mem hmem
  have hparameters :
      (Integration.ofEvent event).requestParameters
        = Integration.objectParameters target := by
    unfold Integration.ofEvent
    rw [h]
    rfl
  refine ⟨_, by rw [h]; rfl, ?_⟩
  rw [at?_requestParameter, hparameters, Integration.objectParameters,
    Integration.withConfigured, Fields.get?_setAll_of_not_mem _ hkept]
  rfl

theorem substitutes_at {place : List String}
    (h : place ∈ event.service.namePlaces)
    (kept : place ∉ event.configuredPlaces) : ∃ sub,
      (resource api event).at? ("Properties" :: "Integration" :: place)
        = some sub ∧
        Substitutes sub event.service.requestHole
          event.target.resourceName.toJson := by
  have templated {sub : Substitution} (hsub : event.target.template? = some sub)
      (hplaces : event.service.namePlaces = Service.sns.namePlaces) : ∃ sub,
      (resource api event).at? ("Properties" :: "Integration" :: place)
        = some sub ∧
        Substitutes sub event.service.requestHole
          event.target.resourceName.toJson := by
    rw [hplaces] at h
    obtain ⟨type, htype, rfl⟩ : ∃ type, (type = "application/json" ∨
        type = "application/x-www-form-urlencoded") ∧
        place = ["RequestTemplates", type] := by
      simpa [Service.namePlaces] using h
    exact ⟨_, at?_template api hsub htype kept,
      Target.substitutes_template hsub⟩
  unfold Event.service at h templated ⊢
  cases htarget : event.target with
  | sqs target =>
      rw [htarget] at h
      obtain rfl := List.mem_singleton.mp h
      have hmem : event.target.uri ∈ event.target.substitutions :=
        List.mem_cons_self
      rw [htarget] at hmem
      refine ⟨_, at?_uri api event, ?_⟩
      rw [htarget]
      exact Target.substitutes_of_mem hmem (if_pos rfl)
  | s3 target =>
      rw [htarget] at h
      obtain rfl := List.mem_singleton.mp h
      obtain ⟨sub, hsub, hat⟩ := at?_bucket api htarget kept
      have hmem : sub ∈ event.target.substitutions := by
        simp [Target.substitutions, hsub]
      rw [htarget] at hmem hsub
      cases hsub
      exact ⟨_, hat, Target.substitutes_of_mem hmem (if_pos rfl)⟩
  | _ =>
      rw [htarget] at templated
      exact templated rfl rfl

end Method

/-! ## In a policy -/

namespace Permission

variable {service : Service} {targets : List Target}

/-- Every resource that is allowed is made from the name of a target. -/
theorem exists_target_of_listed : ∀ statement ∈ statements service targets,
    ∀ resource ∈ listed statement "Resource",
      ∃ target ∈ targets, service.arn target.resourceName = resource := by
  refine forall_statements (fun statement hmem resource hresource => ?_)
    fun resource hresource => ?_
  · obtain ⟨target, htarget, rfl⟩ := mem_separate.mp hmem
    rw [listed_resource, Service.oneOrMore_arn] at hresource
    exact ⟨target, htarget, (List.mem_singleton.mp hresource).symm⟩
  · exact mem_arns.mp hresource

end Permission

namespace Backend

variable {normalized : Normalized} {service : Service} {event : Event}

theorem substitutes_arn (h : normalized.SharesRole service event) :
    Substitutes event.target.arn service.hole
      event.target.resourceName.toJson := by
  obtain rfl : event.target.service = service := h.2.1
  rw [Target.arn_eq]
  exact event.target.substitutes_arn

theorem mem_serviceStatements {statement : Json} :
    statement ∈ serviceStatements
        (Permission.role service
          (sharedTargets (normalized.eventsFor service))) ↔
      statement ∈ Permission.statements service
        (sharedTargets (normalized.eventsFor service)) := by
  rw [serviceStatements, policyStatements_role, List.tail_cons]

end Backend

/-! ## What is made of an event -/

/-- What is made of an event names its resource by a value: its method does in
every place that is not configured, and the role that it shares does where its
action is allowed. -/
structure Event.NamedBy (event : Event) (api : Api) (normalized : Normalized)
    (value : Json) :
    Prop where
  method : ∀ place ∈ event.service.namePlaces,
    place ∉ event.configuredPlaces → ∃ sub,
      (Method.resource api event).at? ("Properties" :: "Integration" :: place)
        = some sub ∧
      Substitutes sub event.service.requestHole value
  policy : event.roleArn = none → ∃ role,
    Fields.get? (Backend.stage api normalized event.service).resources
        (LogicalId.role event.service) = some role ∧
      ∃ statement ∈ serviceStatements role, ∃ resource,
        Allows statement (.str event.target.action) resource ∧
          Substitutes resource event.service.hole value

theorem Event.namedBy (api : Api) {normalized : Normalized} {event : Event}
    (hmem : event ∈ normalized.events) :
    event.NamedBy api normalized event.target.resourceName.toJson where
  method _ := Method.substitutes_at api
  policy hrole := by
    have hshares : normalized.SharesRole event.service event :=
      ⟨hmem, rfl, hrole⟩
    have htarget := Backend.mem_sharedTargets.mpr ⟨event, hshares, rfl⟩
    obtain ⟨statement, hstatement, hallows⟩ :=
      Permission.exists_allows_of_mem _ htarget
    rw [← hshares.arn] at hallows
    obtain ⟨-, unshared⟩ | ⟨hstage, -⟩ :=
      Backend.get?_stage_role api normalized event.service
    · exact absurd hshares (unshared event)
    · exact ⟨_, hstage, statement, Backend.mem_serviceStatements.mpr hstatement,
        _, hallows, Backend.substitutes_arn hshares⟩

/-- The shared role of a service allows no resource but those with the
name of an event. -/
def Normalized.RoleNamed (normalized : Normalized) (api : Api)
    (service : Service) : Prop :=
  ∀ role, Fields.get? (Backend.stage api normalized service).resources
        (LogicalId.role service)
      = some role →
    ∀ statement ∈ serviceStatements role,
      ∀ resource ∈ listed statement "Resource",
      ∃ event, normalized.SharesRole service event ∧
        Substitutes resource service.hole event.target.resourceName.toJson

theorem Normalized.roleNamed (normalized : Normalized) (api : Api)
    (service : Service) :
    normalized.RoleNamed api service := by
  intro role hrole statement hmem resource hresource
  rw [Backend.eq_role_of_mem_stage (Fields.mem_of_get? hrole)] at hmem
  obtain ⟨target, htarget, rfl⟩ := Permission.exists_target_of_listed statement
    (Backend.mem_serviceStatements.mp hmem) resource hresource
  obtain ⟨event, h, rfl⟩ := Backend.mem_sharedTargets.mp htarget
  rw [← h.arn]
  exact ⟨event, h, Backend.substitutes_arn h⟩

/-! ## From a descriptor to its event -/

theorem exists_getElem?_of_forall₂ {α β : Type} {R : α → β → Prop}
    {as : List α} {bs : List β} (h : List.Forall₂ R as bs) {i : Nat} {a : α}
    (ha : as[i]? = some a) :
    ∃ b, bs[i]? = some b ∧ R a b := by
  induction h generalizing i with
  | nil => cases ha
  | cons hhead _ ih =>
      cases i with
      | zero =>
          obtain rfl := Option.some.inj ha
          exact ⟨_, rfl, hhead⟩
      | succ i => exact ih ha

theorem exists_event_of_getElem? {descriptors : List Json}
    {proxies : List ServiceProxy} (hparse : parse descriptors = .ok proxies)
    {i : Nat} {descriptor : Json} (h : descriptors[i]? = some descriptor) :
    ∃ proxy, (Normalized.ofProxies proxies).events[i]?
      = some (Event.ofProxy proxy) ∧
      Schema.readDescriptor descriptor = .ok proxy := by
  obtain ⟨noFault, rfl⟩ := Schema.parse_eq_ok_iff.mp hparse
  obtain ⟨proxy, hproxy, hread⟩ := exists_getElem?_of_forall₂
    (Schema.forall₂_placedFrom (Schema.accepted_of_not_faulty noFault)) h
  refine ⟨proxy, ?_, hread⟩
  show (List.map Event.ofProxy _)[i]? = _
  rw [List.getElem?_map, hproxy, Option.map_some]

/-- A value that is configured for the name of a resource is read just when it
is how a name that the service allows is written, and then it is read to that
name. When the descriptor is accepted, what is made of its event names the
resource by that value, and the role that the service shares allows no resources
but those with such values in them. -/
theorem resource_names_round_trip (service : Service) {fields : Fields Json}
    {value : Json} (hvalue : Fields.get? fields service.nameField
      = some value) :
    (∀ path name, Section.resourceName ⟨service, path, fields⟩ service.nameForm
      service.nameField
        = .ok name ↔ service.nameForm.Allows name ∧ value = name.toJson) ∧
      ∀ (descriptors : List Json) (proxies : List ServiceProxy) (i : Nat),
        parse descriptors = .ok proxies →
        descriptors[i]? = some (.obj [(service.tag, .obj fields)]) →
        ∃ event, (Normalized.ofProxies proxies).events[i]? = some event ∧
          event.service = service ∧
          service.nameForm.Allows event.target.resourceName ∧
          event.target.resourceName.toJson = value ∧
          ∀ api, event.NamedBy api (Normalized.ofProxies proxies) value ∧
            (Normalized.ofProxies proxies).RoleNamed api service := by
  have hname (path : FieldPath) (name : ResourceName) :
      Section.resourceName ⟨service, path, fields⟩ service.nameForm
          service.nameField
        = .ok name ↔ service.nameForm.Allows name ∧ value = name.toJson := by
    rw [Section.resourceName_eq_ok, show Fields.get? fields _ = _ from hvalue,
      Option.some.injEq]
  refine ⟨hname, fun descriptors proxies i hparse hi => ?_⟩
  obtain ⟨proxy, hevent, hread⟩ := exists_event_of_getElem? hparse hi
  obtain ⟨other, more, heq, hbody⟩ := Schema.readDescriptor_eq_ok.mp hread
  simp only [Json.obj.injEq, List.cons.injEq, Prod.mk.injEq, and_true] at heq
  obtain ⟨htag, rfl⟩ := heq
  obtain rfl : service = other := by
    have hother : Service.ofTag? service.tag = some other :=
      Service.ofTag?_eq_some.mpr htag.symm
    rw [Service.ofTag?_eq_some.mpr rfl] at hother
    exact Option.some.inj hother
  have htarget := (Schema.readBody_steps hbody).2
  obtain ⟨allowed, rfl⟩ := (hname [] _).mp (Schema.name_of_readTarget htarget)
  refine ⟨_, hevent, (Schema.sound_of_readTarget htarget).1, allowed, rfl,
    fun api => ?_⟩
  exact ⟨Event.namedBy api (List.mem_of_getElem? hevent),
    Normalized.roleNamed _ api service⟩

/-- A queue of the same template, by the attribute with its name. -/
theorem queue_name_round_trip :
    let value : Json := .obj [("Fn::GetAtt", .arr ["Queue", "QueueName"])]
    let fields : Fields Json :=
      [("path", "a"), ("method", "post"), ("queueName", value)]
    let proxies : List ServiceProxy :=
      [⟨⟨"a", .post, none, none, none, none, false, none, [], none⟩,
        .sqs ⟨.getAtt "Queue" "QueueName", [], []⟩⟩]
    Fields.get? fields "queueName" = some value ∧
      Section.resourceName ⟨.sqs, [], fields⟩ (.getAtt "QueueName") "queueName"
        = .ok (.getAtt "Queue" "QueueName") ∧
      parse [.obj [("sqs", .obj fields)]] = .ok proxies ∧
      ∃ event, (Normalized.ofProxies proxies).events[0]? = some event ∧
        ∀ api, event.NamedBy api (Normalized.ofProxies proxies) value := by
  intro value fields proxies
  have hparse : parse [.obj [("sqs", .obj fields)]] = .ok proxies := by decide
  obtain ⟨hname, hwritten⟩ :=
    resource_names_round_trip
      .sqs (show Fields.get? fields _ = some value from rfl)
  obtain ⟨event, hevent, -, -, -, hnamed⟩ := hwritten _ _ 0 hparse rfl
  exact ⟨rfl, (hname [] _).mpr ⟨rfl, rfl⟩, hparse, event, hevent,
    fun api => (hnamed api).1⟩

end GatewayStack
