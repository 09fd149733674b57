import GatewayStack.Proofs.Holes
import GatewayStack.Proofs.MergePaths
import GatewayStack.Proofs.References
import GatewayStack.Proofs.Requests

/-!
# Substitutions in generated resources

The compilers of the six services write substitutions in four places: the
address of an integration, its templates, the bucket among its parameters, and
the resources that a role allows. Whatever substitution there is inside one of
their resources, it is one of those, built for the target of a proxy
(`Backend.onlySubs_of_mem_stage`), and what is known of the texts and values of
a target is known of it (`substitutions_tight`).

Other places take over values of the configuration as they are. Four of them
take a whole value, and in those four fields nothing is looked at. The others
take texts and flags under names of the configuration, and these can look like a
substitution in part only: next to them there is always an entry that was
generated, or there is no text under the name.
-/

namespace GatewayStack

namespace Intrinsic

/-- A call of the substitution, with a text alone or with a list of
arguments. -/
inductive IsSub : Json → Prop
  | text (text : String) : IsSub (.obj [("Fn::Sub", .str text)])
  | list (items : List Json) : IsSub (.obj [("Fn::Sub", .arr items)])

/-- The substitution of some values in a text, which stands alone if
there are none. -/
def sub (text : String) (values : Fields Json) : Json :=
  .obj [("Fn::Sub", if values.isEmpty then .str text
    else .arr [.str text, .obj values])]

end Intrinsic

open Intrinsic (IsSub)

namespace Json

/-- The fields of a method that take over a value of the configuration. -/
def takenOver : List String :=
  ["AuthorizerId", "Credentials", "ResourceId", "RestApiId"]

/-- A value inside another, or itself, and not in a field that was taken
over. -/
inductive Inside (inner : Json) : Json → Prop
  | self : Inside inner inner
  | item {items : List Json} {value : Json} (mem : value ∈ items)
      (h : Inside inner value) :
      Inside inner (.arr items)
  | field {fields : Fields Json} {entry : String × Json} (mem : entry ∈ fields)
      (generated : entry.1 ∉ takenOver) (h : Inside inner entry.2) :
      Inside inner (.obj fields)

/-- The substitutions inside a value are among some. -/
def OnlySubs (subs : List Substitution) (value : Json) : Prop :=
  ∀ inner, Inside inner value → IsSub inner → ∃ sub ∈ subs, inner = sub.toJson

/-- The same of the values of some fields. -/
def FieldSubs (subs : List Substitution) (fields : Fields Json) : Prop :=
  ∀ entry ∈ fields, entry.1 ∉ takenOver → OnlySubs subs entry.2

variable {subs : List Substitution}

/-! ## Values without fields -/

@[simp] theorem onlySubs_arr_iff {items : List Json} :
    OnlySubs subs (.arr items) ↔ ∀ item ∈ items, OnlySubs subs item := by
  refine ⟨fun h item mem inner inside => h inner (.item mem inside),
    fun h inner inside isSub => ?_⟩
  cases inside with
  | self => cases isSub
  | item mem inside => exact h _ mem inner inside isSub

@[simp] theorem onlySubs_str (s : String) : OnlySubs subs (.str s) := by
  rintro inner ⟨⟩ ⟨⟩

@[simp] theorem onlySubs_bool (b : Bool) : OnlySubs subs (.bool b) := by
  rintro inner ⟨⟩ ⟨⟩

@[simp] theorem onlySubs_nat (n : Nat) : OnlySubs subs (.nat n) := by
  rintro inner ⟨⟩ ⟨⟩

@[simp] theorem onlySubs_strings (items : List String) :
    OnlySubs subs (.strings items) :=
  onlySubs_arr_iff.mpr (List.forall_mem_map.mpr fun s _ => onlySubs_str s)

/-! ## Mappings -/

@[simp] theorem fieldSubs_nil : FieldSubs subs [] :=
  fun _ mem => absurd mem List.not_mem_nil

@[simp] theorem fieldSubs_cons {name : String} {value : Json}
    {rest : Fields Json} :
    FieldSubs subs ((name, value) :: rest) ↔
      (name ∉ takenOver → OnlySubs subs value) ∧ FieldSubs subs rest :=
  List.forall_mem_cons

@[simp] theorem fieldSubs_append {a b : Fields Json} :
    FieldSubs subs (a ++ b) ↔ FieldSubs subs a ∧ FieldSubs subs b :=
  List.forall_mem_append

theorem fieldSubs_optionalProperty {name : String} {value : Option Json}
    (h : ∀ given, value = some given → name ∉ takenOver → OnlySubs subs given) :
    FieldSubs subs (optionalProperty name value) := forall_optionalProperty h

theorem onlySubs_obj {fields : Fields Json} (plain : ¬ IsSub (.obj fields))
    (h : FieldSubs subs fields) : OnlySubs subs (.obj fields) := by
  intro inner inside isSub
  cases inside with
  | self => exact absurd isSub plain
  | field mem generated inside => exact h _ mem generated inner inside isSub

/-- A mapping with another name in it is no call. -/
theorem onlySubs_of_mem_keys {fields : Fields Json} {name : String}
    (hname : name ∈ Fields.keys fields) (other : name ≠ "Fn::Sub")
    (h : FieldSubs subs fields) :
    OnlySubs subs (.obj fields) := by
  refine onlySubs_obj (fun isSub => other ?_) h
  cases isSub <;> exact List.mem_singleton.mp hname

@[simp] theorem onlySubs_cons_iff {name : String} {value : Json}
    {rest : Fields Json} (other : name ≠ "Fn::Sub") :
    OnlySubs subs (.obj ((name, value) :: rest)) ↔
      FieldSubs subs ((name, value) :: rest) := by
  refine ⟨fun h entry mem generated inner inside => ?_, fun h => ?_⟩
  · exact h inner (.field mem generated inside)
  · exact onlySubs_of_mem_keys List.mem_cons_self other h

/-- An argument is a text or a list, so flags are no call, whatever
their names are. -/
theorem onlySubs_flags {fields : Fields Json}
    (h : ∀ entry ∈ fields, ∃ b, entry.2 = .bool b) :
    OnlySubs subs (.obj fields) := by
  refine onlySubs_obj (fun isSub => ?_) fun entry mem _ => ?_
  · cases isSub <;>
      · obtain ⟨b, hb⟩ := h _ List.mem_cons_self
        cases hb
  · obtain ⟨b, hb⟩ := h entry mem
    rw [hb]
    exact onlySubs_bool b

/-- An entry that has another name than a call and a text under it. -/
def Text (entry : String × Json) : Prop := entry.1 ≠ "Fn::Sub" ∧ ∃ text,
    entry.2 = .str text

theorem onlySubs_texts {fields : Fields Json}
    (h : ∀ entry ∈ fields, Text entry) :
    OnlySubs subs (.obj fields) := by
  refine onlySubs_obj (fun isSub => ?_) fun entry mem _ => ?_
  · cases isSub <;> exact (h _ List.mem_cons_self).1 rfl
  · obtain ⟨-, text, htext⟩ := h entry mem
    rw [htext]
    exact onlySubs_str text

/-- Texts of the configuration on top of generated entries, one of which
stays. -/
theorem onlySubs_setAll_texts {generated : Fields Json} {name : String}
    (hname : name ∈ Fields.keys generated) (other : name ≠ "Fn::Sub")
    (h : FieldSubs subs generated) (configured : Fields String) :
    OnlySubs subs (.obj (Fields.setAll generated
      (Fields.mapValues Json.str configured))) := by
  have hkept : name ∈ Fields.keys
      (Fields.setAll generated (Fields.mapValues Json.str configured)) := by
    rw [Fields.keys_setAll, FirstSeen.mem_union]
    exact Or.inl hname
  refine onlySubs_of_mem_keys hkept other fun entry mem fresh => ?_
  rcases Fields.mem_setAll mem with mem | mem
  · exact h entry mem fresh
  · obtain ⟨text, -, heq⟩ := List.mem_map.mp mem
    rw [← (Prod.mk.inj heq).2]
    exact onlySubs_str text.2

end Json

open Json (OnlySubs FieldSubs)

variable {subs : List Substitution}

/-! ## The substitutions of a target -/

@[simp] theorem ResourceName.onlySubs_toJson (name : ResourceName) :
    OnlySubs subs name.toJson := by
  cases name with
  | literal name => exact Json.onlySubs_str name
  | ref logicalId => simp [toJson]
  | getAtt logicalId attr => simp [toJson]

/-- A substitution is one of some, if those that are inside its values are. -/
theorem Substitution.onlySubs_toJson {substitution : Substitution}
    (mem : substitution ∈ subs)
    (names : Fields.keys substitution.values ≠ ["Fn::Sub"])
    (values : FieldSubs subs substitution.values) :
    OnlySubs subs substitution.toJson := by
  have plain : ¬ IsSub (.obj substitution.values) := by
    generalize substitution.values = values at names
    rintro ⟨⟩ <;> exact names rfl
  have arguments : OnlySubs subs (if substitution.values.isEmpty then
      .str substitution.text else .arr [.str substitution.text,
        .obj substitution.values]) := by
    split
    · exact Json.onlySubs_str _
    · refine Json.onlySubs_arr_iff.mpr
        (List.forall_mem_cons.mpr ⟨Json.onlySubs_str _, ?_⟩)
      exact List.forall_mem_singleton.mpr (Json.onlySubs_obj plain values)
  intro inner inside isSub
  cases inside with
  | self => exact ⟨substitution, mem, rfl⟩
  | field entry _ inside =>
      rw [List.mem_singleton.mp entry] at inside
      exact arguments inner inside isSub

namespace MappingTemplate

theorem onlySubs_stream {target : StreamTarget} (mem : stream target ∈ subs) :
    OnlySubs subs (stream target).toJson := by
  refine Substitution.onlySubs_toJson mem ?_
    ?_ <;> unfold stream <;> cases target.action <;> simp

theorem onlySubs_topic {target : TopicTarget} (mem : topic target ∈ subs) :
    OnlySubs subs (topic target).toJson := by
  refine Substitution.onlySubs_toJson mem ?_ ?_ <;> simp [topic, Service.hole]

theorem onlySubs_item {target : ItemTarget} (mem : item target ∈ subs) :
    OnlySubs subs (item target).toJson := by
  have keys : FieldSubs subs ((keyParts target).flatMap fun part =>
      keyValues part.1 part.2) := by
    intro entry hentry _
    obtain ⟨part, -, hvalue⟩ := List.mem_flatMap.mp hentry
    simp only [keyValues, List.mem_cons, List.not_mem_nil, or_false] at hvalue
    rcases hvalue with rfl | rfl | rfl <;> exact Json.onlySubs_str _
  have condition : FieldSubs subs (target.condition.map fun condition =>
      ("ConditionExpression", Json.str condition)).toList := by
    cases target.condition <;> simp
  refine Substitution.onlySubs_toJson mem ?_ ?_
  · simp [item]
  · exact Json.fieldSubs_append.mpr ⟨Json.fieldSubs_append.mpr ⟨by simp, keys⟩,
      condition⟩

theorem onlySubs_bus {target : BusTarget} (mem : bus target ∈ subs) :
    OnlySubs subs (bus target).toJson := by
  refine Substitution.onlySubs_toJson mem ?_ ?_ <;> simp [bus]

end MappingTemplate

namespace Target

variable {target : Target}

theorem onlySubs_uri (mem : target.uri ∈ subs) :
    OnlySubs subs target.uri.toJson := by
  refine Substitution.onlySubs_toJson mem ?_ ?_ <;>
    cases target <;> simp [uri, Integration.addressed, Service.hole]

theorem onlySubs_permitted (mem : target.permitted ∈ subs) :
    OnlySubs subs target.permitted.toJson := by
  refine Substitution.onlySubs_toJson mem ?_ ?_
  · cases target <;> simp [permitted, Target.service, Service.hole]
  · exact Json.fieldSubs_cons.mpr
      ⟨fun _ => ResourceName.onlySubs_toJson _, Json.fieldSubs_nil⟩

theorem uri_mem : target.uri ∈ target.substitutions := by simp [substitutions]

theorem permitted_mem : target.permitted ∈ target.substitutions := by
  simp [substitutions]

theorem template?_mem {template : Substitution}
    (h : target.template? = some template) :
    template ∈ target.substitutions := by
  simp [substitutions, h]

theorem bucket?_mem {parameter : Substitution}
    (h : target.bucket? = some parameter) :
    parameter ∈ target.substitutions := by
  simp [substitutions, h]

end Target

/-! ## Integrations -/

/-- The default templates of a target have its substitution, if they have
any. -/
theorem MappingTemplate.fieldSubs_defaults? {target : Target}
    {defaults : Fields Json} (h : defaults? target = some defaults) :
    "application/json" ∈ Fields.keys defaults ∧
      FieldSubs target.substitutions defaults := by
  have both {substitution : Substitution}
      (hsubs : OnlySubs target.substitutions substitution.toJson) :
      "application/json" ∈ Fields.keys (bothTypes substitution) ∧
        FieldSubs target.substitutions (bothTypes substitution) :=
    ⟨List.mem_cons_self, by simp [bothTypes, hsubs]⟩
  cases target with
  | s3 target => cases h
  | sqs target => cases h; exact ⟨List.mem_cons_self, by simp⟩
  | kinesis target =>
      cases h; exact both (onlySubs_stream (Target.template?_mem rfl))
  | sns target =>
      cases h; exact both (onlySubs_topic (Target.template?_mem rfl))
  | dynamodb target =>
      cases h; exact both (onlySubs_item (Target.template?_mem rfl))
  | eventBridge target =>
      cases h; exact both (onlySubs_bus (Target.template?_mem rfl))

namespace Integration

variable {event : Event}

theorem uri_ofEvent (event : Event) :
    (ofEvent event).uri = event.target.uri.toJson := by
  unfold ofEvent
  split <;> next h => rw [h]; rfl

theorem onlySubs_requestTemplates {templates : Fields Json}
    (h : (ofEvent event).requestTemplates = some templates) :
    OnlySubs event.target.substitutions (.obj templates) := by
  rw [requestTemplates_ofEvent] at h
  obtain ⟨defaults, hdefaults, rfl⟩ := Option.map_eq_some_iff.mp h
  obtain ⟨hname, hsubs⟩ := MappingTemplate.fieldSubs_defaults? hdefaults
  exact Json.onlySubs_setAll_texts hname (by decide) hsubs _

theorem onlySubs_objectParameters (target : ObjectTarget) :
    OnlySubs (Target.s3 target).substitutions
      (.obj (objectParameters target)) := by
  have bucket : OnlySubs (Target.s3 target).substitutions (Substitution.toJson
      ⟨[.plain "'", .hole Service.s3.hole, .plain "'"],
        [(Service.s3.hole, target.bucket.toJson)]⟩) :=
    Substitution.onlySubs_toJson (Target.bucket?_mem rfl)
      (by simp [Service.hole]) (by simp)
  have name : requestParameter "path" "bucket" ≠ "Fn::Sub" := by decide
  refine Json.onlySubs_setAll_texts List.mem_cons_self name ?_ _
  cases target.key <;> cases target.partialContent <;> simp [bucket, constant]

theorem onlySubs_requestParameters (event : Event) :
    OnlySubs event.target.substitutions
      (.obj (ofEvent event).requestParameters) := by
  have nothing {subs : List Substitution} : OnlySubs subs (.obj []) :=
    Json.onlySubs_texts (List.forall_mem_nil _)
  have call : requestParameter "header" "X-Amz-Target" ≠ "Fn::Sub" := by decide
  have type : requestParameter "header" "Content-Type" ≠ "Fn::Sub" := by decide
  unfold ofEvent
  split
  · exact nothing
  · exact Json.onlySubs_setAll_texts List.mem_cons_self (by decide)
      (by simp [constant]) _
  · next target h => rw [h]; exact onlySubs_objectParameters target
  · exact Json.onlySubs_texts (List.forall_mem_singleton.mpr ⟨type, _, rfl⟩)
  · exact nothing
  · refine Json.onlySubs_texts (List.forall_mem_cons.mpr ⟨⟨call, _, rfl⟩, ?_⟩)
    exact List.forall_mem_singleton.mpr ⟨type, _, rfl⟩

/-- What a method declares is flags. -/
theorem onlySubs_methodParameters (event : Event) :
    OnlySubs subs (.obj (ofEvent event).methodParameters) := by
  refine Json.onlySubs_flags ?_
  unfold ofEvent
  split
  · exact List.forall_mem_nil _
  · exact List.forall_mem_map.mpr fun entry _ => ⟨entry.2, rfl⟩
  · exact flags_readParameters _
  · exact List.forall_mem_nil _
  · exact List.forall_mem_nil _
  · exact List.forall_mem_nil _

theorem text_responseHeader (name text : String) :
    Json.Text (responseHeader name, .str text) :=
  ⟨responseHeader_ne_of_not_begins name (by decide), text, rfl⟩

theorem texts_successParameters (event : Event) :
    ∀ entry ∈ (ofEvent event).successParameters, Json.Text entry := by
  unfold ofEvent
  split
  case h_3 target _ =>
    exact List.forall_mem_map.mpr fun header _ => text_responseHeader header _
  all_goals exact List.forall_mem_nil _

end Integration

/-! ## The methods and the role of a service -/

namespace Method

variable {event : Event}

theorem onlySubs_integrationResponse (kind : ResponseKind) :
    OnlySubs subs (integrationResponse event
      (Integration.ofEvent event) kind) := by
  have parameters : OnlySubs subs
      (.obj (responseParameters event (Integration.ofEvent event)
        kind.outcome)) :=
    Json.onlySubs_texts (forall_responseParameters
      (fun _ => Integration.text_responseHeader _ _)
      (Integration.texts_successParameters event) kind.outcome)
  have name : "application/json" ≠ "Fn::Sub" := by decide
  have templates : OnlySubs subs
      (.obj (responseTemplates event kind.outcome)) := by
    refine Json.onlySubs_texts
      (forall_optionalProperty fun given hgiven => ⟨name, ?_⟩)
    obtain ⟨text, -, rfl⟩ := Option.map_eq_some_iff.mp hgiven
    exact ⟨text, rfl⟩
  simp [integrationResponse, parameters, templates]

theorem onlySubs_methodResponse (kind : ResponseKind) :
    OnlySubs subs (methodResponse event (Integration.ofEvent event) kind) := by
  have flags : OnlySubs subs (.obj (Fields.mapValues (fun _ => .bool true)
      (responseParameters event (Integration.ofEvent event) kind.outcome))) :=
    Json.onlySubs_flags (List.forall_mem_map.mpr fun _ _ => ⟨true, rfl⟩)
  have models : OnlySubs subs Json.empty :=
    Json.onlySubs_flags (List.forall_mem_nil _)
  simp [methodResponse, flags, models]

theorem onlySubs_integrationBlock (event : Event) :
    OnlySubs event.target.substitutions
      (integrationBlock event (Integration.ofEvent event)) := by
  have uri : OnlySubs event.target.substitutions
      (Integration.ofEvent event).uri := by
    rw [Integration.uri_ofEvent]
    exact Target.onlySubs_uri Target.uri_mem
  have parameters : FieldSubs event.target.substitutions
      (optionalProperty "RequestParameters"
        (if (Integration.ofEvent event).requestParameters.isEmpty then none
        else some (.obj (Integration.ofEvent event).requestParameters))) := by
    refine Json.fieldSubs_optionalProperty fun given hgiven _ => ?_
    split at hgiven
    · cases hgiven
    · rw [← Option.some.inj hgiven]
      exact Integration.onlySubs_requestParameters event
  have templates : FieldSubs event.target.substitutions
      (optionalProperty "RequestTemplates"
        ((Integration.ofEvent event).requestTemplates.map Json.obj)) := by
    refine Json.fieldSubs_optionalProperty fun given hgiven _ => ?_
    obtain ⟨templates, htemplates, rfl⟩ := Option.map_eq_some_iff.mp hgiven
    exact Integration.onlySubs_requestTemplates htemplates
  have responses : OnlySubs event.target.substitutions
      (.arr ((responseKinds (Integration.ofEvent event).partialContent).map
        (integrationResponse event (Integration.ofEvent event)))) :=
    Json.onlySubs_arr_iff.mpr (List.forall_mem_map.mpr fun kind _ =>
      onlySubs_integrationResponse kind)
  have credentials : "Credentials" ∈ Json.takenOver := by decide
  unfold integrationBlock
  simp only [List.cons_append, List.nil_append]
  rw [Json.onlySubs_cons_iff (by decide)]
  simp only [Json.fieldSubs_cons, Json.fieldSubs_append, Json.fieldSubs_nil,
    Json.onlySubs_str, uri, parameters, templates, responses, credentials,
    not_true_eq_false, false_imp_iff, implies_true, and_self]

theorem onlySubs_resource (api : Api) (event : Event) :
    OnlySubs event.target.substitutions (resource api event) := by
  have declared : OnlySubs event.target.substitutions
      (.obj (Integration.ofEvent event).methodParameters) :=
    Integration.onlySubs_methodParameters event
  have authorizer : FieldSubs event.target.substitutions
      (optionalProperty "AuthorizerId" event.authorizerId) :=
    Json.fieldSubs_optionalProperty fun _ _ generated =>
      absurd (by decide) generated
  have scopes : FieldSubs event.target.substitutions
      (optionalProperty "AuthorizationScopes"
        (event.authorizationScopes.map Json.strings)) := by
    refine Json.fieldSubs_optionalProperty fun given hgiven _ => ?_
    obtain ⟨scopes, -, rfl⟩ := Option.map_eq_some_iff.mp hgiven
    exact Json.onlySubs_strings scopes
  have block := onlySubs_integrationBlock event
  have responses : OnlySubs event.target.substitutions
      (.arr ((responseKinds (Integration.ofEvent event).partialContent).map
        (methodResponse event (Integration.ofEvent event)))) :=
    Json.onlySubs_arr_iff.mpr (List.forall_mem_map.mpr fun kind _ =>
      onlySubs_methodResponse kind)
  simp [resource, resourceOf, Json.takenOver, declared, authorizer, scopes,
    block, responses]

end Method

namespace Permission

variable {service : Service} {targets : List Target}

theorem onlySubs_arn {target : Target} (mem : target ∈ targets)
    (h : target.service = service) :
    OnlySubs (targets.map Target.permitted)
      (service.arn target.resourceName) := by
  subst h
  exact Target.onlySubs_permitted (List.mem_map_of_mem mem)

theorem onlySubs_allow {actions resources : Json}
    (hactions : OnlySubs subs actions) (hresources : OnlySubs subs resources) :
    OnlySubs subs (allow actions resources) := by
  simp [allow, hactions, hresources]

theorem onlySubs_statements (h : ∀ target ∈ targets, target.service = service) :
    ∀ statement ∈ statements service targets,
      OnlySubs (targets.map Target.permitted) statement := by
  refine forall_statements (fun statement hmem => ?_) ?_
  · obtain ⟨target, htarget, rfl⟩ := mem_separate.mp hmem
    exact onlySubs_allow (Json.onlySubs_str _)
      (onlySubs_arn htarget (h target htarget))
  · refine onlySubs_allow (Json.onlySubs_strings _)
      (Json.onlySubs_arr_iff.mpr ?_)
    intro arn harn
    obtain ⟨target, htarget, rfl⟩ := mem_arns.mp harn
    exact onlySubs_arn htarget (h target htarget)

theorem onlySubs_role (h : ∀ target ∈ targets, target.service = service) :
    OnlySubs (targets.map Target.permitted) (role service targets) := by
  have log : OnlySubs (targets.map Target.permitted) logStatement :=
    onlySubs_allow (Json.onlySubs_strings _) (Json.onlySubs_str _)
  have hstatements : ∀ statement ∈ statements service targets,
      OnlySubs (targets.map Target.permitted) statement := onlySubs_statements h
  simpa [role, log, Json.takenOver] using hstatements

end Permission

/-- Every substitution inside a resource of a service was built for the
target of an event. -/
theorem Backend.onlySubs_of_mem_stage {api : Api} {normalized : Normalized}
    {service : Service} {id : String} {resource : Json}
    (h : (id, resource) ∈ (stage api normalized service).resources)
    {value : Json} (inside : Json.Inside value resource) (isSub : IsSub value) :
    ∃ event ∈ normalized.events, event.service = service ∧
      ∃ sub ∈ event.target.substitutions, value = sub.toJson := by
  rcases mem_stage h with hmem | hmem
  · obtain ⟨-, -, rfl⟩ := mem_roleFragment.mp hmem
    obtain ⟨sub, hsub, hvalue⟩ := Permission.onlySubs_role
      (fun _ => service_of_mem_sharedTargets) value inside isSub
    obtain ⟨target, htarget, rfl⟩ := List.mem_map.mp hsub
    obtain ⟨event, ⟨hevent, hservice, -⟩, rfl⟩ := mem_sharedTargets.mp htarget
    exact ⟨event, hevent, hservice, _, Target.permitted_mem, hvalue⟩
  · obtain ⟨event, hevent, -, rfl⟩ := mem_methodFragment hmem
    obtain ⟨hevent, hservice⟩ := mem_eventsFor.mp hevent
    exact ⟨event, hevent, hservice,
      Method.onlySubs_resource api event value inside isSub⟩

/-- Every substitution that the compiler of a service builds is closed and
tight: whatever the text has a hole for is a pseudo parameter or has a value,
and whatever has a value has a hole in the text. No string of the configuration
is part of the text: it is one that is also made for the target of a proxy with
all of its strings taken out. -/
theorem substitutions_tight (provider : Provider) (descriptors : List Json)
    (proxies : List ServiceProxy) : parse descriptors = .ok proxies →
      ∀ service id resource value,
        (id, resource) ∈ (Backend.stage (Api.ofProvider provider)
          (Normalized.ofProxies proxies) service).resources →
      Json.Inside value resource → Intrinsic.IsSub value →
        ∃ text values, value = Intrinsic.sub text values ∧
          Intrinsic.Tight text values ∧
          ∃ proxy ∈ proxies, proxy.service = service ∧
            text ∈ proxy.target.blank.texts := by
  intro _ service id resource value hmem inside isSub
  obtain ⟨event, hevent, hservice, sub, hsub, rfl⟩ :=
    Backend.onlySubs_of_mem_stage hmem inside isSub
  obtain ⟨proxy, hproxy, rfl⟩ := List.mem_map.mp hevent
  refine ⟨sub.text, sub.values, rfl,
    (Target.matched_of_mem_substitutions hsub).tight, proxy,
    hproxy, hservice, ?_⟩
  rw [Target.texts_blank]
  exact List.mem_map_of_mem hsub

/-- What names lead to is inside, unless one of them is that of a field that
was taken over. -/
theorem Json.inside_of_at? {value inner : Json} {path : List String}
    (h : value.at? path = some inner)
    (generated : ∀ name ∈ path, name ∉ takenOver) : Inside inner value := by
  induction path generalizing value with
  | nil =>
      rw [Option.some.inj h]
      exact .self
  | cons name path ih =>
      obtain ⟨hname, hpath⟩ := List.forall_mem_cons.mp generated
      obtain ⟨field, hfield, hinner⟩ := exists_field_of_at? h
      obtain ⟨fields, rfl, hget⟩ := exists_obj_of_field? hfield
      exact .field (Fields.mem_of_get? hget) hname (ih hinner hpath)

theorem Intrinsic.sub_inj {text other : String} {values others : Fields Json}
    (h : sub text values = sub other others) :
    text = other ∧ values = others := by
  have hargument := congrArg Prod.snd (List.cons.inj (Json.obj.inj h)).1
  cases values <;> cases others <;> simp_all [Json.arr.injEq]

/-- A proxy that deletes from a table. -/
def deletionDescriptor (table : String) : Json :=
  .obj [("dynamodb", .obj [("path", "items/\x7bid\x7d"), ("method", "delete"),
    ("tableName", .str table), ("action", "DeleteItem"),
    ("hashKey", .obj [("pathParam", "id"), ("attributeType", "S")]),
    ("condition", "attribute_exists(id)")])]

/-- A table with a name that looks like a hole, and a condition. -/
theorem substitutions_tight_deletion :
    let provider := Provider.ofStage "shop" "dev" "1"
    let text :=
      "\x7b\"TableName\": \"$\x7bTableName\x7d\", \"Key\": \x7b\"$\x7bHashKey\x7d\": "
      ++ "\x7b\"$\x7bHashAttributeType\x7d\": \"$\x7bHashAttributeValue\x7d\"\x7d\x7d, "
      ++ "\"ConditionExpression\": \"$\x7bConditionExpression\x7d\"\x7d"
    let values : Fields Json :=
      [("TableName", "$\x7bstage\x7d"), ("HashKey", "id"),
        ("HashAttributeType", "S"),
        ("HashAttributeValue", "$input.params().path.id"),
      ("ConditionExpression", "attribute_exists(id)")]
    ∃ proxies resource, parse [deletionDescriptor "$\x7bstage\x7d"]
      = .ok proxies ∧
      ("ApiGatewayMethodItemsIdVarDelete", resource) ∈
        (Backend.stage (Api.ofProvider provider) (Normalized.ofProxies proxies)
          .dynamodb).resources ∧
      resource.at? ["Properties", "Integration", "RequestTemplates",
        "application/json"]
          = some (Intrinsic.sub text values) ∧
      Intrinsic.Tight text values ∧ ¬ Intrinsic.Mentions text "stage" := by
  intro provider text values
  let proxy : ServiceProxy :=
    ⟨⟨"items/\x7bid\x7d", .delete, none, none, none, none, false,
      none, [], none⟩,
      .dynamodb ⟨.literal "$\x7bstage\x7d", .deleteItem,
        some ⟨.path "id", "S"⟩, none, some "attribute_exists(id)"⟩⟩
  have hparse : parse [deletionDescriptor "$\x7bstage\x7d"]
      = .ok [proxy] := by decide
  have hmem : ("ApiGatewayMethodItemsIdVarDelete",
      Method.resource (Api.ofProvider provider) (Event.ofProxy proxy)) ∈
        (Backend.stage (Api.ofProvider provider) (Normalized.ofProxies [proxy])
          .dynamodb).resources :=
    List.mem_cons_of_mem _ (by decide +kernel)
  have hat : (Method.resource (Api.ofProvider provider)
      (Event.ofProxy proxy)).at? ["Properties", "Integration",
      "RequestTemplates", "application/json"]
        = some (Intrinsic.sub text values) := by decide +kernel
  obtain ⟨other, others, heq, tight, -⟩ :=
    substitutions_tight provider _ _ hparse .dynamodb _ _ _ hmem
      (Json.inside_of_at? hat (by decide)) (.list _)
  obtain ⟨rfl, rfl⟩ := Intrinsic.sub_inj heq
  exact ⟨_, _, hparse, hmem, hat, tight, fun h =>
    absurd (tight.closed _ h) (by decide)⟩

end GatewayStack
