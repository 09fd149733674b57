import GatewayStack.Proofs.Deployments
import Mathlib.Data.List.Nodup

/-!
# What the shared roles allow

The methods of a service call it under a role of their own or under the one that
they share. The shared role is made from the targets of the events that bring no
role, in a pass of its own with its own rules for leaving out repetitions, so
that no method is left without the permission that it needs has to be proved.

A policy is read here the way the platform reads it: a statement allows each of
its actions on each of its resources. For buckets and tables a statement has one
of each. For the other services it has lists of both, and what it allows is the
product of the two. With a single action, as queues, topics and buses have, that
makes no difference. A stream has two, and there the product can be more than
anything asked for (`Backend.minimal_role_iff`).
-/

namespace GatewayStack

/-! ## Reading a policy -/

/-- The items of the list at the end of a path of names. -/
def Json.itemsAt (value : Json) (path : List String) : List Json :=
  ((value.at? path).bind Json.items?).getD []

/-- The statements of the policies that a role carries. -/
def policyStatements (role : Json) : List Json :=
  (role.itemsAt ["Properties", "Policies"]).flatMap fun policy =>
    policy.itemsAt ["PolicyDocument", "Statement"]

/-- The items of a list, or a single value by itself. -/
def Json.oneOrMore : Json → List Json
  | .arr items => items
  | item => [item]

/-- What a statement has under a name. -/
def listed (statement : Json) (name : String) : List Json :=
  ((statement.field? name).map Json.oneOrMore).getD []

/-- The statement allows an action on a resource. -/
def Allows (statement action resource : Json) : Prop :=
  statement.field? "Effect" = some "Allow" ∧
    action ∈ listed statement "Action" ∧
    resource ∈ listed statement "Resource"

instance (statement action resource : Json) :
    Decidable (Allows statement action resource) :=
  inferInstanceAs (Decidable (_ ∧ _ ∧ _))

/-- Some event of a service brings no role and is called under the shared
one. -/
def Normalized.SharesRole (normalized : Normalized) (service : Service)
    (event : Event) : Prop :=
  event ∈ normalized.events ∧ event.service = service ∧ event.roleArn = none

/-- A text with one named hole, and what to put there. -/
def substituted (text hole : String) (name : ResourceName) : Json :=
  .obj [("Fn::Sub", .arr [.str text, .obj [(hole, name.toJson)]])]

/-- The resource that a target acts on: the objects of a bucket, or the stream,
queue, topic, table or bus itself. -/
def Target.arn : Target → Json
  | .kinesis target => substituted
      ("arn:$\x7bAWS::Partition\x7d:kinesis:$\x7bAWS::Region\x7d:$\x7bAWS::AccountId\x7d:"
        ++ "stream/$\x7bstreamName\x7d")
      "streamName" target.stream
  | .sqs target => substituted
      ("arn:$\x7bAWS::Partition\x7d:sqs:$\x7bAWS::Region\x7d:$\x7bAWS::AccountId\x7d:"
        ++ "$\x7bqueueName\x7d")
      "queueName" target.queue
  | .s3 target =>
    substituted "arn:$\x7bAWS::Partition\x7d:s3:::$\x7bbucket\x7d/*" "bucket"
      target.bucket
  | .sns target => substituted
      ("arn:$\x7bAWS::Partition\x7d:sns:$\x7bAWS::Region\x7d:$\x7bAWS::AccountId\x7d:"
        ++ "$\x7btopicName\x7d")
      "topicName" target.topic
  | .dynamodb target => substituted
      ("arn:$\x7bAWS::Partition\x7d:dynamodb:$\x7bAWS::Region\x7d:$\x7bAWS::AccountId\x7d:"
        ++ "table/$\x7btableName\x7d")
      "tableName" target.table
  | .eventBridge target => substituted
      ("arn:$\x7bAWS::Partition\x7d:events:$\x7bAWS::Region\x7d:$\x7bAWS::AccountId\x7d:"
        ++ "event-bus/$\x7beventBusName\x7d")
      "eventBusName" target.bus

theorem Target.arn_eq (target : Target) :
    target.arn = target.service.arn target.resourceName := by
  cases target <;> rfl

/-- What a method with this target does, by the name that policies have for
it. -/
def Target.permission : Target → String
  | .kinesis { action := .putRecord, .. } => "kinesis:PutRecord"
  | .kinesis { action := .putRecords, .. } => "kinesis:PutRecords"
  | .sqs _ => "sqs:SendMessage"
  | .s3 { action := .getObject, .. } => "s3:GetObject"
  | .s3 { action := .putObject, .. } => "s3:PutObject"
  | .s3 { action := .deleteObject, .. } => "s3:DeleteObject"
  | .sns _ => "sns:Publish"
  | .dynamodb { action := .putItem, .. } => "dynamodb:PutItem"
  | .dynamodb { action := .getItem, .. } => "dynamodb:GetItem"
  | .dynamodb { action := .deleteItem, .. } => "dynamodb:DeleteItem"
  | .eventBridge _ => "events:PutEvents"

theorem Target.permission_eq (target : Target) :
    target.permission = target.action := by
  rcases target with ⟨_, _, _ | _⟩ | _ | ⟨_ | _ | _⟩ | _ |
    ⟨_, _ | _ | _⟩ | _ <;> rfl

/-! ## Names and their expressions -/

theorem ResourceName.toJson_injective {a b : ResourceName}
    (h : a.toJson = b.toJson) : a = b := by
  cases a <;> cases b <;> simp_all [ResourceName.toJson]

theorem Service.arn_injective {service : Service} {a b : ResourceName}
    (h : service.arn a = service.arn b) : a = b := by
  refine ResourceName.toJson_injective ?_
  unfold Service.arn Substitution.toJson at h
  simp only [List.isEmpty_cons, Bool.false_eq_true, if_false, Json.obj.injEq,
    List.cons.injEq, Prod.mk.injEq, Json.arr.injEq, true_and, and_true] at h
  exact h.2

theorem Service.oneOrMore_arn (service : Service) (name : ResourceName) :
    (service.arn name).oneOrMore = [service.arn name] := rfl

/-! ## The statements of a service -/

namespace Permission

theorem listed_action (actions resources : Json) :
    listed (allow actions resources) "Action" = actions.oneOrMore := rfl

theorem listed_resource (actions resources : Json) :
    listed (allow actions resources) "Resource" = resources.oneOrMore := rfl

theorem allows_allow {actions resources action resource : Json} :
    Allows (allow actions resources) action resource ↔
      action ∈ actions.oneOrMore ∧ resource ∈ resources.oneOrMore := by
  unfold Allows
  rw [listed_action, listed_resource]
  exact and_iff_right rfl

/-- A statement of its own for every pair of an action and a resource. -/
def separate (service : Service) (targets : List Target) : List Json :=
  (FirstSeen.distinct (targets.map fun target =>
    (target.action, target.resourceName))).map
      fun (action, name) => allow (.str action) (service.arn name)

/-- One statement with every action and every resource. -/
def together (service : Service) (targets : List Target) : Json :=
  allow (Json.strings (FirstSeen.distinct (targets.map Target.action)))
    (.arr ((FirstSeen.distinct (targets.map Target.resourceName)).map
      service.arn))

theorem statements_eq (service : Service) (targets : List Target) :
    statements service targets = match service with
      | .s3 | .dynamodb => separate service targets
      | .kinesis | .sqs | .sns | .eventBridge =>
        [together service targets] := by
  cases service <;> rfl

variable {service : Service} {targets : List Target} {action resource : Json}

theorem mem_separate {statement : Json} :
    statement ∈ separate service targets ↔ ∃ target ∈ targets,
      allow (.str target.action) (service.arn target.resourceName)
        = statement := by
  simp only [separate, List.mem_map, FirstSeen.mem_distinct,
    exists_exists_and_eq_and]

theorem mem_arns {arn : Json} :
    arn ∈ (FirstSeen.distinct (targets.map Target.resourceName)).map
        service.arn ↔
      ∃ target ∈ targets, service.arn target.resourceName = arn := by
  simp only [List.mem_map, FirstSeen.mem_distinct, exists_exists_and_eq_and]

theorem exists_allows_separate :
    (∃ statement ∈ separate service targets, Allows statement action resource) ↔
      ∃ target ∈ targets, .str target.action = action ∧
        service.arn target.resourceName = resource := by
  refine ⟨?_, ?_⟩
  · rintro ⟨statement, hmem, hallows⟩
    obtain ⟨target, htarget, rfl⟩ := mem_separate.mp hmem
    obtain ⟨haction, hresource⟩ := allows_allow.mp hallows
    rw [Service.oneOrMore_arn] at hresource
    exact ⟨target, htarget, (List.mem_singleton.mp haction).symm,
      (List.mem_singleton.mp hresource).symm⟩
  · rintro ⟨target, htarget, rfl, rfl⟩
    refine ⟨_, mem_separate.mpr ⟨target, htarget, rfl⟩, allows_allow.mpr ?_⟩
    exact ⟨List.mem_singleton_self _, List.mem_singleton_self _⟩

theorem allows_together :
    Allows (together service targets) action resource ↔
      (∃ target ∈ targets, .str target.action = action) ∧
        ∃ target ∈ targets, service.arn target.resourceName = resource := by
  unfold together
  rw [allows_allow]
  refine and_congr ?_ mem_arns
  show action ∈ List.map Json.str _ ↔ _
  simp only [List.mem_map, FirstSeen.mem_distinct, exists_exists_and_eq_and]

theorem exists_allows_of_mem (service : Service) {target : Target}
    (h : target ∈ targets) :
    ∃ statement ∈ statements service targets,
      Allows statement (.str target.action)
        (service.arn target.resourceName) := by
  have paired : ∃ statement ∈ separate service targets, Allows statement _ _ :=
    exists_allows_separate.mpr ⟨target, h, rfl, rfl⟩
  have crossed : Allows (together service targets) _ _ :=
    allows_together.mpr ⟨⟨target, h, rfl⟩, target, h, rfl⟩
  rw [statements_eq]
  split
  · exact paired
  · exact paired
  all_goals exact ⟨_, List.mem_singleton_self _, crossed⟩

/-- Queues, topics and buses have a single action. -/
theorem action_eq_of_service {a b : Target} (h : a.service = b.service)
    (single : a.service ≠ .kinesis ∧ a.service ≠ .s3 ∧ a.service ≠ .dynamodb) :
    a.action = b.action := by
  cases a <;> cases b <;> simp_all [Target.service, Target.action]

/-- Except for streams, a permission that is given is needed by one target. -/
theorem exists_of_allows (h : service ≠ .kinesis)
    (same : ∀ target ∈ targets, target.service = service) {statement : Json}
    (hmem : statement ∈ statements service targets)
    (hallows : Allows statement action resource) :
    ∃ target ∈ targets, .str target.action = action ∧
      service.arn target.resourceName = resource := by
  rw [statements_eq] at hmem
  have crossed (single : service ≠ .s3 ∧ service ≠ .dynamodb)
      (hmem : statement ∈ [together service targets]) : ∃ target ∈ targets,
        .str target.action = action ∧ service.arn target.resourceName
          = resource := by
    rw [List.mem_singleton.mp hmem] at hallows
    obtain ⟨⟨a, ha, rfl⟩, b, hb, rfl⟩ := allows_together.mp hallows
    have hsame : b.service = a.service := (same b hb).trans (same a ha).symm
    have haction := action_eq_of_service hsame
      (by rw [same b hb]; exact ⟨h, single⟩)
    exact ⟨b, hb, congrArg Json.str haction, rfl⟩
  cases service with
  | kinesis => exact absurd rfl h
  | s3 | dynamodb => exact exists_allows_separate.mp ⟨statement, hmem, hallows⟩
  | sqs | sns | eventBridge => exact crossed (by decide) hmem

theorem forall_statements {P : Json → Prop}
    (hseparate : ∀ statement ∈ separate service targets, P statement)
    (htogether : P (together service targets)) :
    ∀ statement ∈ statements service targets, P statement := by
  rw [statements_eq]
  split
  · exact hseparate
  · exact hseparate
  all_goals exact List.forall_mem_singleton.mpr htogether

/-- The statement for the log is told apart by having many actions and one
resource that is no list. -/
theorem ne_logStatement : ∀ statement ∈ statements service targets,
    statement ≠ logStatement := by
  refine forall_statements (fun statement h => ?_) ?_
  · obtain ⟨target, -, rfl⟩ := mem_separate.mp h
    simp [allow, logStatement, Json.strings]
  · simp [together, allow, logStatement]

theorem nodup_separate : (separate service targets).Nodup := by
  refine List.Nodup.map ?_ (FirstSeen.nodup_distinct _)
  rintro ⟨action, name⟩ ⟨action', name'⟩ heq
  simp only [allow, Json.obj.injEq, List.cons.injEq, Prod.mk.injEq,
    Json.str.injEq, true_and, and_true] at heq
  exact Prod.ext heq.1 (Service.arn_injective heq.2)

theorem nodup_statements (service : Service) (targets : List Target) :
    (statements service targets).Nodup := by
  rw [statements_eq]
  split
  · exact nodup_separate
  · exact nodup_separate
  all_goals exact List.nodup_singleton _

/-- The statement lists no action and no resource twice. -/
def Unrepeating (statement : Json) : Prop :=
  (listed statement "Action").Nodup ∧ (listed statement "Resource").Nodup

theorem unrepeating_logStatement : Unrepeating logStatement := by
  unfold Unrepeating
  decide

theorem unrepeating_statements :
    ∀ statement ∈ statements service targets, Unrepeating statement := by
  refine forall_statements (fun statement h => ?_) ⟨?_, ?_⟩
  · obtain ⟨target, -, rfl⟩ := mem_separate.mp h
    exact ⟨List.nodup_singleton _, List.nodup_singleton _⟩
  · exact (FirstSeen.nodup_distinct _).map fun _ _ => Json.str.inj
  · exact (FirstSeen.nodup_distinct _).map fun _ _ => Service.arn_injective

end Permission

/-! ## The role of a service -/

theorem policyStatements_role (service : Service) (targets : List Target) :
    policyStatements (Permission.role service targets)
      = Permission.logStatement :: Permission.statements service targets := by
  show List.flatMap _ [_] = _
  rw [List.flatMap_singleton]
  rfl

namespace Backend

variable {api : Api} {normalized : Normalized} {service : Service}

theorem mem_eventsFor {event : Event} :
    event ∈ normalized.eventsFor service ↔ event ∈ normalized.events ∧
      event.service = service := by
  unfold Normalized.eventsFor
  rw [List.mem_filter, decide_eq_true_iff]

theorem mem_sharedTargets {target : Target} :
    target ∈ sharedTargets (normalized.eventsFor service) ↔
      ∃ event, normalized.SharesRole service event ∧ event.target = target := by
  unfold sharedTargets Normalized.SharesRole
  simp only [List.mem_map, List.mem_filter, mem_eventsFor,
    Option.isNone_iff_eq_none, and_assoc]

theorem service_of_mem_sharedTargets {target : Target}
    (h : target ∈ sharedTargets (normalized.eventsFor service)) :
    target.service = service := by
  obtain ⟨event, ⟨-, hservice, -⟩, rfl⟩ := mem_sharedTargets.mp h
  exact hservice

theorem mem_roleFragment {events : List Event} {id : String} {resource : Json} :
    (id, resource) ∈ (roleFragment service events).resources ↔
      sharedTargets events ≠ [] ∧ id = LogicalId.role service ∧
        resource = Permission.role service (sharedTargets events) := by
  unfold roleFragment
  split
  · next h =>
      rw [h]
      exact iff_of_false List.not_mem_nil fun h => h.1 rfl
  · next h =>
      refine List.mem_singleton.trans (Prod.mk.injEq _ _ _ _ ▸ ?_)
      exact (and_iff_right h).symm

theorem mem_methodFragment {events : List Event} {id : String} {resource : Json}
    (h : (id, resource) ∈ (methodFragment api events).resources) :
    ∃ event ∈ events, id = Method.id event ∧
      resource = Method.resource api event := by
  unfold methodFragment at h
  rw [Fragment.resources_addMethods] at h
  rcases Fields.mem_setAll h with hmem | hmem
  · cases hmem
  · obtain ⟨event, hevent, heq⟩ := List.mem_map.mp hmem
    obtain ⟨rfl, rfl⟩ := Prod.mk.inj heq
    exact ⟨event, hevent, rfl, rfl⟩

theorem keys_methodFragment (api : Api) (events : List Event) :
    ∀ event ∈ events, Method.id event ∈
      Fields.keys (methodFragment api events).resources := by
  intro event hevent
  unfold methodFragment
  rw [Fragment.resources_addMethods, Fields.keys_setAll, FirstSeen.mem_union]
  have hentry := List.mem_map_of_mem hevent
    (f := fun event => (Method.id event, Method.resource api event))
  exact Or.inr (Fields.mem_keys_of_mem hentry)

theorem mem_stage {id : String} {resource : Json}
    (h : (id, resource) ∈ (stage api normalized service).resources) :
    (id, resource) ∈ (roleFragment service
      (normalized.eventsFor service)).resources ∨
      (id, resource) ∈
        (methodFragment api (normalized.eventsFor service)).resources :=
  Fields.mem_setAll h

theorem mem_keys_stage {id : String} :
    id ∈ Fields.keys (stage api normalized service).resources ↔
      id ∈ Fields.keys (roleFragment service
        (normalized.eventsFor service)).resources ∨
        id ∈ Fields.keys (methodFragment api
          (normalized.eventsFor service)).resources := by
  show id ∈ Fields.keys (Fields.setAll _ _) ↔ _
  rw [Fields.keys_setAll, FirstSeen.mem_union]

theorem role_not_mem_methods :
    LogicalId.role service ∉
      Fields.keys (methodFragment api
        (normalized.eventsFor service)).resources :=
  (kinded_methodFragment api _).not_mem_keys (.role service) (by decide)

theorem eq_role_of_mem_stage {role : Json}
    (h : (LogicalId.role service, role) ∈
      (stage api normalized service).resources) :
    role = Permission.role service (sharedTargets
      (normalized.eventsFor service)) := by
  rcases mem_stage h with hmem | hmem
  · exact (mem_roleFragment.mp hmem).2.2
  · exact absurd (Fields.mem_keys_of_mem hmem) role_not_mem_methods

theorem mem_keys_stage_role :
    LogicalId.role service ∈
      Fields.keys (stage api normalized service).resources ↔
      ∃ event, normalized.SharesRole service event := by
  rw [mem_keys_stage, or_iff_left role_not_mem_methods]
  refine ⟨fun h => ?_, fun ⟨event, h⟩ => ?_⟩
  · obtain ⟨entry, hentry, -⟩ := List.mem_map.mp h
    obtain ⟨target, htarget⟩ :=
      List.exists_mem_of_ne_nil _ (mem_roleFragment.mp hentry).1
    obtain ⟨event, h, -⟩ := mem_sharedTargets.mp htarget
    exact ⟨event, h⟩
  · have htarget := mem_sharedTargets.mpr ⟨event, h, rfl⟩
    exact Fields.mem_keys_of_mem
      (mem_roleFragment.mpr ⟨List.ne_nil_of_mem htarget, rfl, rfl⟩)

theorem exists_method_of_mem_stage {id : String} {resource : Json}
    (h : (id, resource) ∈ (stage api normalized service).resources)
    (hid : id ≠ LogicalId.role service) : ∃ event ∈ normalized.events,
      event.service = service ∧
      id = Method.id event ∧ resource = Method.resource api event := by
  rcases mem_stage h with hmem | hmem
  · exact absurd (mem_roleFragment.mp hmem).2.1 hid
  · obtain ⟨event, hevent, hmade⟩ := mem_methodFragment hmem
    obtain ⟨hevent, hservice⟩ := mem_eventsFor.mp hevent
    exact ⟨event, hevent, hservice, hmade⟩

end Backend

theorem Method.at?_credentials (api : Api) (event : Event) :
    (Method.resource api event).at? ["Properties", "Integration", "Credentials"]
      = some (Method.credentials event) := by
  unfold Method.resource Method.resourceOf
  cases event.authorizerId <;> cases event.authorizationScopes <;> rfl

/-- The stage of a service has the shared role when some event of the service
brings no role. Every other resource of it is the method of an event, every
event has one, and it is called under the role of the event or else under the
shared one. The shared role allows each event that is called under it, by its
name in policies, what the event does to its resource, and repeats no statement,
no action and no resource. -/
theorem shared_role_suffices (api : Api) (normalized : Normalized)
    (service : Service) :
    (LogicalId.role service ∈
      Fields.keys (Backend.stage api normalized service).resources ↔
        ∃ event, normalized.SharesRole service event) ∧
      (∀ id resource, (id, resource) ∈
        (Backend.stage api normalized service).resources →
        id ≠ LogicalId.role service → ∃ event ∈ normalized.events,
          event.service = service ∧
          id = Method.id event ∧ resource = Method.resource api event) ∧
      (∀ event ∈ normalized.events, event.service = service →
        Method.id event ∈
          Fields.keys (Backend.stage api normalized service).resources ∧
          (Method.resource api event).at? ["Properties", "Integration",
            "Credentials"]
              = some (event.roleArn.getD
                (.obj [("Fn::GetAtt",
                  .arr [.str (LogicalId.role service), "Arn"])]))) ∧
      ∀ role, (LogicalId.role service, role) ∈
        (Backend.stage api normalized service).resources →
        (∀ event, normalized.SharesRole service event →
          ∃ statement ∈ policyStatements role,
            Allows statement (.str event.target.permission) event.target.arn) ∧
        (policyStatements role).Nodup ∧ ∀ statement ∈ policyStatements role,
          (listed statement "Action").Nodup ∧
            (listed statement "Resource").Nodup := by
  refine ⟨Backend.mem_keys_stage_role, fun id resource hmem hid =>
    Backend.exists_method_of_mem_stage hmem hid,
    fun event hevent hservice => ⟨?_, ?_⟩, fun role hrole => ?_⟩
  · have hmem := Backend.mem_eventsFor.mpr ⟨hevent, hservice⟩
    exact Backend.mem_keys_stage.mpr
      (Or.inr (Backend.keys_methodFragment api _ event hmem))
  · rw [Method.at?_credentials, Method.credentials, hservice]
    cases event.roleArn <;> rfl
  · rw [Backend.eq_role_of_mem_stage hrole, policyStatements_role]
    refine ⟨fun event hshares => ?_, ?_, ?_⟩
    · have htarget := Backend.mem_sharedTargets.mpr ⟨event, hshares, rfl⟩
      obtain ⟨statement, hmem, hallows⟩ :=
        Permission.exists_allows_of_mem service htarget
      rw [Target.permission_eq, Target.arn_eq,
        show event.target.service = service from hshares.2.1]
      exact ⟨statement, List.mem_cons_of_mem _ hmem, hallows⟩
    · refine List.nodup_cons.mpr ⟨fun h => ?_, Permission.nodup_statements _ _⟩
      exact Permission.ne_logStatement _ h rfl
    · exact List.forall_mem_cons.mpr
        ⟨Permission.unrepeating_logStatement, Permission.unrepeating_statements⟩

/-- Events on one path that share the roles of their services. -/
def Normalized.sharing (targets : List Target) : Normalized :=
  ⟨targets.map fun target =>
    ⟨"a", .post, .anonymous, none, none, none, false, none, [], none, target⟩,
    []⟩

/-- A target for every action there is. -/
def Target.everyAction : List Target := [
  .kinesis ⟨.literal "clicks", none, .putRecord⟩,
  .kinesis ⟨.ref "Orders", none, .putRecords⟩,
  .sqs ⟨.getAtt "Jobs" "QueueName", [], []⟩,
  .s3 ⟨.getObject, .literal "files", .fixed "a", false, []⟩,
  .s3 ⟨.putObject, .literal "files", .fixed "a", false, []⟩,
  .s3 ⟨.deleteObject, .ref "Uploads", .fixed "a", false, []⟩,
  .sns ⟨.getAtt "News" "TopicName"⟩,
  .dynamodb ⟨.literal "users", .putItem, none, none, none⟩,
  .dynamodb ⟨.literal "users", .getItem, none, none, none⟩,
  .dynamodb ⟨.ref "Sessions", .deleteItem, none, none, none⟩,
  .eventBridge ⟨.literal "audit", .literal "app", none, none⟩]

/-- The roles of all services together allow every action there is. -/
theorem shared_role_suffices_every_action :
    List.Forall₂
      (fun target action => ∃ role,
        (LogicalId.role target.service, role) ∈
          (Backend.stage (Api.ofProvider (Provider.ofStage "shop" "dev" "1"))
            (Normalized.sharing Target.everyAction) target.service).resources ∧
        ∃ statement ∈ policyStatements role,
          Allows statement (.str action) target.arn) Target.everyAction
      ["kinesis:PutRecord", "kinesis:PutRecords", "sqs:SendMessage",
        "s3:GetObject", "s3:PutObject", "s3:DeleteObject", "sns:Publish",
        "dynamodb:PutItem", "dynamodb:GetItem", "dynamodb:DeleteItem",
        "events:PutEvents"] := by
  refine List.forall₂_map_right_iff (f := Target.permission).mpr
    (List.forall₂_same.mpr fun target h => ?_)
  obtain ⟨present, -, -, allowed⟩ := shared_role_suffices
    (Api.ofProvider (Provider.ofStage "shop" "dev" "1"))
    (Normalized.sharing Target.everyAction) target.service
  have shares : (Normalized.sharing Target.everyAction).SharesRole
      target.service
      ⟨"a", .post, .anonymous, none, none, none, false, none, [],
        none, target⟩ :=
    ⟨List.mem_map_of_mem h, rfl, rfl⟩
  obtain ⟨⟨id, role⟩, hrole, rfl⟩ := List.mem_map.mp (present.mpr ⟨_, shares⟩)
  exact ⟨role, hrole, (allowed role hrole).1 _ shares⟩

/-! ## The role in a compiled template -/

theorem Compile.versions_role (api : Api) (normalized : Normalized)
    (service : Service) :
    versions (Service.all.map (Backend.stage api normalized))
        (LogicalId.role service)
      = (Fields.get? (Backend.stage api normalized service).resources
          (LogicalId.role service)).toList := by
  -- The stage of another service has the role of that service and
  -- methods, no more.
  have hothers : ∀ other ≠ service, Fields.get?
        (Backend.stage api normalized other).resources (LogicalId.role service)
      = none := by
    intro other hother
    refine Fields.get?_eq_none_iff.mpr fun hmem => ?_
    rcases Backend.mem_keys_stage.mp hmem with hmem | hmem
    · obtain ⟨entry, hentry, hid⟩ := List.mem_map.mp hmem
      rw [(Backend.mem_roleFragment.mp hentry).2.1] at hid
      exact hother (LogicalId.role_injective hid)
    · exact (Backend.kinded_methodFragment _ _).not_mem_keys (.role service)
        (by decide) hmem
  cases service <;> simp [Service.all, versions_cons, hothers]

/-- Of all the stages only that of the service writes its role. -/
theorem Compile.versions_stages_role {provider : Provider} {restApi : Fragment}
    (hapi : RestApi.stage provider = .ok restApi) (normalized : Normalized)
    (service : Service) :
    versions (stages provider normalized restApi) (LogicalId.role service)
      = (Fields.get? (Backend.stage (Api.ofProvider provider) normalized
          service).resources (LogicalId.role service)).toList := by
  have hid : LogicalId.OfKind .role (LogicalId.role service) := .role service
  unfold stages
  rw [versions_cons, versions_cons, versions_cons, versions_role,
    (RestApi.kinded hapi).get?_eq_none hid (by decide),
    (PathTree.kinded _ _).get?_eq_none hid (by decide),
    (Preflight.kinded _ _).get?_eq_none hid (by decide)]
  rfl

/-- A run leaves the role of the service's stage, merged onto the role
that was there. -/
theorem Compile.resource?_role_onto {provider : Provider}
    {normalized : Normalized} {report : Report} {template compiled : Template}
    (orderly : template.Orderly)
    (h : events provider normalized template = .ok (report, compiled))
    (service : Service) :
    compiled.resource? (LogicalId.role service)
      = Json.mergeOnto (template.resource? (LogicalId.role service))
          (Fields.get? (Backend.stage (Api.ofProvider provider) normalized
            service).resources (LogicalId.role service)).toList := by
  obtain ⟨restApi, -, hapi, -, -, -⟩ := events_eq_ok h
  have early : EarlyKind .role := by decide
  rw [resource?_early hapi h orderly (.role service) early,
    versions_stages_role hapi]

/-- A template that a run made from nothing has the role of the
service's stage. -/
theorem Compile.resource?_role {provider : Provider} {normalized : Normalized}
    {report : Report} {compiled : Template}
    (h : events provider normalized Template.empty = .ok (report, compiled))
    (service : Service) :
    compiled.resource? (LogicalId.role service)
      = Fields.get? (Backend.stage (Api.ofProvider provider) normalized
          service).resources (LogicalId.role service) := by
  rw [resource?_role_onto Template.orderly_empty h service]
  cases Fields.get? (Backend.stage (Api.ofProvider provider) normalized
    service).resources (LogicalId.role service) <;> rfl

/-- The statements of a shared role after the first, which is for the log. -/
def serviceStatements (role : Json) : List Json := (policyStatements role).tail

/-- Everything that the shared role allows is the action and the resource of
some event that is called under it. -/
def Minimal (normalized : Normalized) (service : Service)
    (role : Json) : Prop :=
  ∀ statement ∈ serviceStatements role, ∀ action resource,
    Allows statement action resource →
    ∃ event, normalized.SharesRole service event ∧
      .str event.target.action = action ∧
      event.target.arn = resource

/-- Whichever two events share the role of the streams, some event takes the
action of the one on the stream of the other. -/
def Normalized.StreamsCrossed (normalized : Normalized) : Prop :=
  ∀ a b, normalized.SharesRole .kinesis a → normalized.SharesRole .kinesis b →
    ∃ c, normalized.SharesRole .kinesis c ∧ c.target.action = a.target.action ∧
      c.target.resourceName = b.target.resourceName

theorem Normalized.SharesRole.arn {normalized : Normalized} {service : Service}
    {event : Event} (h : normalized.SharesRole service event) :
    event.target.arn = service.arn event.target.resourceName := by
  rw [Target.arn_eq, show event.target.service = service from h.2.1]

theorem Backend.minimal_role_iff {normalized : Normalized} {service : Service} :
    Minimal normalized service
        (Permission.role service
          (sharedTargets (normalized.eventsFor service))) ↔
      (service = .kinesis → normalized.StreamsCrossed) := by
  unfold Minimal serviceStatements
  rw [policyStatements_role, List.tail_cons]
  refine ⟨?_, fun crossed statement hmem action resource hallows => ?_⟩
  · -- The one statement for the streams allows the action of `a` on the stream
    -- of `b`.
    rintro minimal rfl a b ha hb
    have hallows : Allows (Permission.together .kinesis
        (sharedTargets (normalized.eventsFor .kinesis))) (.str a.target.action)
        (Service.kinesis.arn b.target.resourceName) :=
      Permission.allows_together.mpr
        ⟨⟨_, mem_sharedTargets.mpr ⟨a, ha, rfl⟩, rfl⟩,
        _, mem_sharedTargets.mpr ⟨b, hb, rfl⟩, rfl⟩
    obtain ⟨c, hc, haction, hresource⟩ :=
      minimal _ (List.mem_singleton_self _) _ _ hallows
    rw [hc.arn] at hresource
    exact ⟨c, hc, Json.str.inj haction, Service.arn_injective hresource⟩
  · by_cases stream : service = .kinesis
    · subst stream
      rw [List.mem_singleton.mp hmem] at hallows
      obtain ⟨⟨x, hx, rfl⟩, y, hy, rfl⟩ := Permission.allows_together.mp hallows
      obtain ⟨a, ha, rfl⟩ := mem_sharedTargets.mp hx
      obtain ⟨b, hb, rfl⟩ := mem_sharedTargets.mp hy
      obtain ⟨c, hc, haction, hname⟩ := crossed rfl a b ha hb
      exact ⟨c, hc, congrArg Json.str haction, by rw [hc.arn, hname]⟩
    · obtain ⟨target, htarget, haction, hresource⟩ :=
        Permission.exists_of_allows stream
          (fun _ => service_of_mem_sharedTargets) hmem hallows
      obtain ⟨event, hevent, rfl⟩ := mem_sharedTargets.mp htarget
      exact ⟨event, hevent, haction, by rw [hevent.arn, hresource]⟩

/-- The shared role of a compiled template allows nothing beyond what its events
need, for every service but the streams. There it does exactly when the actions
and the streams of its events come in every combination. -/
theorem shared_role_minimal_iff {provider : Provider} {descriptors : List Json}
    {proxies : List ServiceProxy} {report : Report} {template : Template}
    (hparse : parse descriptors = .ok proxies)
    (h : compile provider descriptors Template.empty = (.ok report, template))
    {service : Service} {role : Json}
    (hrole : template.resource? (LogicalId.role service) = some role) :
    (policyStatements role).head? = some Permission.logStatement ∧
      (Minimal (Normalized.ofProxies proxies) service role ↔
        (service = .kinesis →
          (Normalized.ofProxies proxies).StreamsCrossed)) := by
  have nonempty : descriptors ≠ [] := by
    rintro rfl
    obtain ⟨-, rfl⟩ := Prod.mk.inj h
    cases hrole
  obtain ⟨found, hfound, hevents⟩ := Compile.compile_eq_ok nonempty h
  rw [hparse] at hfound
  obtain rfl := Except.ok.inj hfound
  rw [Compile.resource?_role hevents] at hrole
  rw [Backend.eq_role_of_mem_stage (Fields.mem_of_get? hrole)]
  refine ⟨?_, Backend.minimal_role_iff⟩
  rw [policyStatements_role]
  rfl

/-- A proxy that puts records into a stream, at a path of the same name. -/
def streamDescriptor (stream action : String) : Json :=
  .obj [("kinesis", .obj [("path", stream), ("method", "post"),
    ("streamName", stream), ("action", action)])]

def streamProxy (stream : String) (action : StreamAction) : ServiceProxy :=
  ⟨⟨stream, .post, none, none, none, none, false, none, [], none⟩,
    .kinesis ⟨.literal stream, none, action⟩⟩

/-- Two streams with the same action. -/
theorem shared_role_minimal_a_b :
    ∃ report template role,
      parse [streamDescriptor "a" "PutRecord", streamDescriptor "b" "PutRecord"]
        = .ok [streamProxy "a" .putRecord, streamProxy "b" .putRecord] ∧
      compile (Provider.ofStage "shop" "dev" "1")
        [streamDescriptor "a" "PutRecord", streamDescriptor "b" "PutRecord"]
        Template.empty
          = (.ok report, template) ∧
      template.resource? (LogicalId.role .kinesis) = some role ∧
      Minimal (Normalized.ofProxies [streamProxy "a" .putRecord,
        streamProxy "b" .putRecord]) .kinesis role := by
  have hparse : parse [streamDescriptor "a" "PutRecord",
      streamDescriptor "b" "PutRecord"]
        = .ok [streamProxy "a" .putRecord, streamProxy "b" .putRecord] := by
    decide
  have report : (compile (Provider.ofStage "shop" "dev" "1")
      [streamDescriptor "a" "PutRecord", streamDescriptor "b" "PutRecord"]
      Template.empty).1
        = .ok ⟨2, ["ApiGatewayMethodAPost", "ApiGatewayMethodBPost"],
          some "ApiGatewayDeployment1"⟩ := by decide
  have role : (compile (Provider.ofStage "shop" "dev" "1")
      [streamDescriptor "a" "PutRecord", streamDescriptor "b" "PutRecord"]
        Template.empty).2.resource? (LogicalId.role .kinesis)
          = some (Permission.role .kinesis
              [(streamProxy "a" .putRecord).target,
                (streamProxy "b" .putRecord).target]) := by
    decide +kernel
  refine ⟨_, _, _, hparse, Prod.ext report rfl, role, ?_⟩
  refine (shared_role_minimal_iff hparse (Prod.ext report rfl) role).2.mpr
    fun _ a b ha hb => ?_
  refine ⟨b, hb, ?_, rfl⟩
  have single : ∀ event ∈ (Normalized.ofProxies
      [streamProxy "a" .putRecord, streamProxy "b" .putRecord]).events,
      event.target.action = "kinesis:PutRecord" := by decide
  rw [single a ha.1, single b hb.1]

/-- Two streams with different actions: the role allows the action of the one on
the other as well, which no event needs. -/
theorem shared_role_exceeds :
    ∃ role,
      parse [streamDescriptor "a" "PutRecord",
        streamDescriptor "b" "PutRecords"]
          = .ok [streamProxy "a" .putRecord, streamProxy "b" .putRecords] ∧
      (compile (Provider.ofStage "shop" "dev" "1")
        [streamDescriptor "a" "PutRecord", streamDescriptor "b" "PutRecords"]
        Template.empty).1
          = .ok ⟨2, ["ApiGatewayMethodAPost", "ApiGatewayMethodBPost"],
              some "ApiGatewayDeployment1"⟩ ∧
      (compile (Provider.ofStage "shop" "dev" "1")
        [streamDescriptor "a" "PutRecord", streamDescriptor "b" "PutRecords"]
          Template.empty).2.resource? (LogicalId.role .kinesis) = some role ∧
      ¬ Minimal (Normalized.ofProxies [streamProxy "a" .putRecord,
        streamProxy "b" .putRecords]) .kinesis role := by
  refine ⟨Permission.role .kinesis
    [(streamProxy "a" .putRecord).target, (streamProxy "b" .putRecords).target],
    by decide, by decide, by decide +kernel, fun minimal => ?_⟩
  obtain ⟨event, hevent, haction, hresource⟩ :=
    minimal _ (List.mem_singleton_self _) "kinesis:PutRecords"
      (streamProxy "a" .putRecord).target.arn (by decide)
  have apart : ∀ event ∈ (Normalized.ofProxies
      [streamProxy "a" .putRecord, streamProxy "b" .putRecords]).events,
      .str event.target.action = Json.str "kinesis:PutRecords" →
        event.target.arn ≠ (streamProxy "a" .putRecord).target.arn := by decide
  exact apart event hevent.1 haction hresource

end GatewayStack
