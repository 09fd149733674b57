import GatewayStack.Proofs.Acceptance
import GatewayStack.Proofs.Routes

/-!
# What the compiler may rely on

The compiler checks nothing again. It writes a key into a request without
asking whether there is one, and an authorizer into a method without looking at
the kind of authorization. What it relies on is listed here
(`ServiceProxy.Sound`), for one proxy without any mention of how it was read,
and every accepted proxy has it.

For one proxy this is a matter of the reader of each part. The two facts about
several proxies are what is left once no route clashes with another.
-/

namespace GatewayStack

/-- A service with this form of reference may be given the name. -/
def ReferenceForm.Allows (form : ReferenceForm) : ResourceName → Prop
  | .literal _ => True
  | .ref _ => form = .ref
  | .getAtt _ attr => form = .getAtt attr

/-- What the compiler relies on in a target. -/
def Target.Sound : Target → Prop
  | .kinesis target => ReferenceForm.ref.Allows target.stream
  | .sqs target => (ReferenceForm.getAtt "QueueName").Allows target.queue
  | .s3 target => ReferenceForm.ref.Allows target.bucket
  | .sns target => (ReferenceForm.getAtt "TopicName").Allows target.topic
  | .dynamodb target => ReferenceForm.ref.Allows target.table ∧
      (target.action ≠ .putItem → target.hashKey.isSome) ∧
      (target.action = .getItem → target.condition = none)
  | .eventBridge target => ReferenceForm.ref.Allows target.bus ∧
      ∀ text, target.detail ≠ some (.literal text)

/-- What the compiler relies on in explicit CORS settings. -/
structure CorsSettings.Sound (settings : CorsSettings) : Prop where
  oneOrigin : settings.origin = none ∨ settings.origins = none
  positive : ∀ age, settings.maxAge = some age → 1 ≤ age

/-- What the compiler relies on in the part that every service has. -/
structure Binding.Sound (http : Binding) : Prop where
  authorizer : http.authorizerId.isSome →
    http.authorization = some .custom ∧ http.authorizationScopes = none
  scopes : http.authorizationScopes.isSome →
    http.authorization = some .cognitoUserPools ∧ http.authorizerId = none
  cors : ∀ settings, http.cors = some (.custom settings) → settings.Sound

/-- What the compiler relies on in a proxy. -/
structure ServiceProxy.Sound (proxy : ServiceProxy) : Prop where
  http : proxy.http.Sound
  target : proxy.target.Sound
  /-- Objects are passed on as they are. -/
  untemplated : proxy.service = .s3 →
    proxy.http.requestTemplates = [] ∧ proxy.http.responseTemplates = none

theorem ResourceName.toJson_ne_null (name : ResourceName) :
    name.toJson ≠ .null := by
  cases name <;> exact Json.noConfusion

/-- A value gives a name just when it is how that name is written. -/
theorem ReferenceForm.read?_eq_some {form : ReferenceForm} {value : Json}
    {name : ResourceName} :
    form.read? value = some name ↔ form.Allows name ∧ value = name.toJson := by
  refine ⟨fun h => ?_, ?_⟩
  · unfold read? at h
    split at h
    · rw [← Option.some.inj h]
      exact ⟨trivial, rfl⟩
    · rw [← Option.some.inj h]
      exact ⟨rfl, rfl⟩
    · split at h
      · next hattr =>
          rw [← Option.some.inj h, hattr]
          exact ⟨rfl, rfl⟩
      · cases h
    · cases h
  · rintro ⟨allowed, rfl⟩
    cases name with
    | literal name => cases form <;> rfl
    | ref logicalId =>
        obtain rfl : form = .ref := allowed
        rfl
    | getAtt logicalId attr =>
        obtain rfl : form = .getAtt attr := allowed
        exact if_pos rfl

namespace Section

variable {s : Section} {name : String}

theorem resourceName_eq_ok {form : ReferenceForm} {found : ResourceName} :
    s.resourceName form name = .ok found ↔
      form.Allows found ∧ Fields.get? s.fields name = some found.toJson := by
  unfold resourceName
  simp only [bind_eq_ok, required_eq_ok, read_eq_ok,
    ReferenceForm.read?_eq_some, Grammar.Given]
  refine ⟨?_, ?_⟩
  · rintro ⟨value, ⟨hvalue, -⟩, allowed, rfl⟩
    exact ⟨allowed, hvalue⟩
  · rintro ⟨allowed, hvalue⟩
    exact ⟨_, ⟨hvalue, found.toJson_ne_null⟩, allowed, rfl⟩

theorem allows_of_resourceName {form : ReferenceForm} {found : ResourceName}
    (h : s.resourceName form name = .ok found) : form.Allows found :=
  (resourceName_eq_ok.mp h).1

/-- A choice is built by one of its alternatives. -/
theorem exists_alternative {α : Type}
    {alternatives : List (String × (String → α))} {further : List String}
    {value : Json} {inner : Section} {a : α}
    (h : s.oneOf name alternatives further value = .ok (inner, a)) :
    ∃ alternative ∈ alternatives, ∃ text, a = alternative.2 text := by
  obtain ⟨found, -, h⟩ := bind_eq_ok.mp h
  obtain ⟨-, -, h⟩ := bind_eq_ok.mp h
  split at h
  · cases h
  · next key build hfilter =>
      obtain ⟨text, -, h⟩ := bind_eq_ok.mp h
      have hmem : (key, build) ∈ alternatives :=
        List.mem_of_mem_filter (hfilter ▸ List.mem_cons_self)
      exact ⟨_, hmem, text, (Prod.mk.inj (Except.ok.inj h)).2.symm⟩
  · obtain ⟨-, -, h⟩ := bind_eq_ok.mp h
    cases h

/-- Where no constants are allowed, none is read. -/
theorem not_literal_of_source {value : Json} {source : Source}
    (h : s.source name false value = .ok source) (text : String) :
    source ≠ .literal text := by
  unfold Section.source at h
  split at h
  · next heq => cases heq
  · obtain ⟨⟨inner, found⟩, hchoice, rfl⟩ := map_eq_ok.mp h
    obtain ⟨alternative, hmem, part, rfl⟩ := exists_alternative hchoice
    simp only [requestParts, List.mem_cons, List.not_mem_nil, or_false] at hmem
    rcases hmem with rfl | rfl | rfl <;> exact Source.noConfusion
  · cases h

end Section

namespace Schema

variable {body : Section}

/-! ## The part that every service has -/

theorem sound_of_readCorsSettings {cors : Section} {settings : CorsSettings}
    (h : readCorsSettings cors = .ok settings) : settings.Sound := by
  obtain ⟨-, -, h⟩ := bind_eq_ok.mp h
  obtain ⟨_, hexclusive, h⟩ := bind_eq_ok.mp h
  obtain ⟨maxAge, hage, h⟩ := bind_eq_ok.mp h
  obtain ⟨origin, horigin, h⟩ := bind_eq_ok.mp h
  obtain ⟨origins, horigins, h⟩ := bind_eq_ok.mp h
  obtain ⟨methods, -, h⟩ := bind_eq_ok.mp h
  obtain ⟨headers, -, h⟩ := bind_eq_ok.mp h
  obtain ⟨allowCredentials, -, h⟩ := bind_eq_ok.mp h
  obtain ⟨cacheControl, -, h⟩ := bind_eq_ok.mp h
  obtain rfl := Except.ok.inj h
  refine ⟨?_, fun age heq => ?_⟩
  · have hapart := Section.succeeds_exclusive.mp ⟨_, hexclusive⟩
    rw [← Option.not_isSome_iff_eq_none, ← Option.not_isSome_iff_eq_none,
      ← not_and_or]
    rintro ⟨hone, hmany⟩
    exact hapart ⟨(Section.isSome_of_optional horigin).mp hone,
      (Section.isSome_of_optional horigins).mp hmany⟩
  · rcases Section.optional_eq_ok.mp hage with ⟨-, rfl⟩ |
      ⟨value, count, -, hread, rfl⟩
    · cases heq
    · obtain rfl := Option.some.inj heq
      cases value with
      | num n =>
          have positive := (Option.filter_eq_some_iff.mp hread).2
          exact of_decide_eq_true positive
      | _ => cases hread

theorem sound_of_readCors {settings : CorsSettings}
    (h : readCors body = .ok (some (.custom settings))) : settings.Sound := by
  unfold readCors at h
  split at h
  · cases h
  · cases h
  · cases h
  · obtain ⟨cors, -, h⟩ := bind_eq_ok.mp h
    obtain ⟨found, hfound, h⟩ := bind_eq_ok.mp h
    cases h
    exact sound_of_readCorsSettings hfound
  · cases h

theorem sound_of_readBinding {http : Binding}
    (h : readBinding body = .ok http) : http.Sound := by
  obtain ⟨-, hcors, haccess, -⟩ := readBinding_steps h
  obtain ⟨-, hcustom, hpools⟩ := readAccess_steps haccess
  -- the two kinds of authorization differ, so an authorizer and scopes
  -- exclude each other
  have apart : ¬ (http.authorizerId.isSome ∧
      http.authorizationScopes.isSome) := by
    rintro ⟨hid, hscopes⟩
    have heq := (hcustom hid).symm.trans (hpools hscopes)
    cases heq
  refine ⟨fun hid => ⟨hcustom hid, ?_⟩, fun hscopes => ⟨hpools hscopes, ?_⟩,
    fun settings hsettings => ?_⟩
  · exact Option.not_isSome_iff_eq_none.mp fun hscopes => apart ⟨hid, hscopes⟩
  · exact Option.not_isSome_iff_eq_none.mp fun hid => apart ⟨hid, hscopes⟩
  · rw [hsettings] at hcors
    exact sound_of_readCors hcors

/-! ## The part that the service decides -/

theorem stream_of_readStream {target : StreamTarget}
    (h : readStream body = .ok target) :
    body.resourceName .ref "streamName" = .ok target.stream := by
  obtain ⟨stream, hstream, h⟩ := bind_eq_ok.mp h
  obtain ⟨partitionKey, -, h⟩ := bind_eq_ok.mp h
  obtain ⟨action, -, h⟩ := bind_eq_ok.mp h
  obtain rfl := Except.ok.inj h
  exact hstream

theorem queue_of_readQueue {target : QueueTarget}
    (h : readQueue body = .ok target) :
    body.resourceName (.getAtt "QueueName") "queueName" = .ok target.queue := by
  obtain ⟨queue, hqueue, h⟩ := bind_eq_ok.mp h
  obtain ⟨requestParameters, -, h⟩ := bind_eq_ok.mp h
  obtain ⟨acceptParameters, -, h⟩ := bind_eq_ok.mp h
  obtain rfl := Except.ok.inj h
  exact hqueue

theorem bucket_of_readObject {target : ObjectTarget}
    (h : readObject body = .ok target) :
    body.resourceName .ref "bucket" = .ok target.bucket := by
  obtain ⟨given, -, h⟩ := bind_eq_ok.mp h
  obtain ⟨action, -, h⟩ := bind_eq_ok.mp h
  obtain ⟨bucket, hbucket, h⟩ := bind_eq_ok.mp h
  obtain ⟨key, -, h⟩ := bind_eq_ok.mp h
  obtain ⟨partialContent, -, h⟩ := bind_eq_ok.mp h
  obtain ⟨requestParameters, -, h⟩ := bind_eq_ok.mp h
  obtain rfl := Except.ok.inj h
  exact hbucket

theorem topic_of_readTopic {target : TopicTarget}
    (h : readTopic body = .ok target) :
    body.resourceName (.getAtt "TopicName") "topicName" = .ok target.topic := by
  obtain ⟨topic, htopic, h⟩ := bind_eq_ok.mp h
  obtain rfl := Except.ok.inj h
  exact htopic

theorem readItem_steps {target : ItemTarget} (h : readItem body = .ok target) :
    body.resourceName .ref "tableName" = .ok target.table ∧
      ¬ (target.hashKey.isNone ∧ target.action ≠ .putItem) ∧
      ¬ (target.condition.isSome ∧ target.action = .getItem) := by
  obtain ⟨table, htable, h⟩ := bind_eq_ok.mp h
  obtain ⟨given, -, h⟩ := bind_eq_ok.mp h
  obtain ⟨action, -, h⟩ := bind_eq_ok.mp h
  obtain ⟨hashKey, -, h⟩ := bind_eq_ok.mp h
  obtain ⟨hneeded, h⟩ := unless_eq_ok.mp h
  obtain ⟨rangeKey, -, h⟩ := bind_eq_ok.mp h
  obtain ⟨condition, -, h⟩ := bind_eq_ok.mp h
  obtain ⟨hallowed, h⟩ := unless_eq_ok.mp h
  obtain rfl := Except.ok.inj h
  exact ⟨htable, hneeded, hallowed⟩

theorem readBus_steps {target : BusTarget} (h : readBus body = .ok target) :
    body.resourceName .ref "eventBusName" = .ok target.bus ∧
      body.source? "detail" false = .ok target.detail := by
  obtain ⟨bus, hbus, h⟩ := bind_eq_ok.mp h
  obtain ⟨given, -, h⟩ := bind_eq_ok.mp h
  obtain ⟨source, -, h⟩ := bind_eq_ok.mp h
  obtain ⟨detailType, -, h⟩ := bind_eq_ok.mp h
  obtain ⟨detail, hdetail, h⟩ := bind_eq_ok.mp h
  obtain rfl := Except.ok.inj h
  exact ⟨hbus, hdetail⟩

theorem sound_of_readItem {target : ItemTarget}
    (h : readItem body = .ok target) :
    (Target.dynamodb target).Sound := by
  obtain ⟨htable, hneeded, hallowed⟩ := readItem_steps h
  refine ⟨Section.allows_of_resourceName htable, fun hput => ?_, fun hget => ?_⟩
  · refine Option.isSome_iff_ne_none.mpr fun hnone => hneeded ⟨?_, hput⟩
    exact Option.isNone_iff_eq_none.mpr hnone
  · exact Option.not_isSome_iff_eq_none.mp fun hsome => hallowed ⟨hsome, hget⟩

theorem sound_of_readBus {target : BusTarget} (h : readBus body = .ok target) :
    (Target.eventBridge target).Sound := by
  obtain ⟨hbus, hdetail⟩ := readBus_steps h
  refine ⟨Section.allows_of_resourceName hbus, fun text heq => ?_⟩
  rw [heq] at hdetail
  unfold Section.source? at hdetail
  split at hdetail
  · cases hdetail
  · obtain ⟨found, hfound, hsome⟩ := map_eq_ok.mp hdetail
    exact Section.not_literal_of_source hfound text (Option.some.inj hsome)

theorem sound_of_readStream {target : StreamTarget}
    (h : readStream body = .ok target) :
    (Target.kinesis target).Sound :=
  Section.allows_of_resourceName (stream_of_readStream h)

theorem sound_of_readQueue {target : QueueTarget}
    (h : readQueue body = .ok target) :
    (Target.sqs target).Sound :=
  Section.allows_of_resourceName (queue_of_readQueue h)

theorem sound_of_readObject {target : ObjectTarget}
    (h : readObject body = .ok target) :
    (Target.s3 target).Sound :=
  Section.allows_of_resourceName (bucket_of_readObject h)

theorem sound_of_readTopic {target : TopicTarget}
    (h : readTopic body = .ok target) :
    (Target.sns target).Sound :=
  Section.allows_of_resourceName (topic_of_readTopic h)

/-- A target is of the service of its descriptor. -/
theorem sound_of_readTarget {target : Target}
    (h : readTarget body = .ok target) :
    target.service = body.service ∧ target.Sound := by
  unfold readTarget at h
  split at h <;> next hservice =>
    obtain ⟨found, hfound, rfl⟩ := map_eq_ok.mp h
    refine ⟨hservice.symm, ?_⟩
    first
    | exact sound_of_readStream hfound
    | exact sound_of_readQueue hfound
    | exact sound_of_readObject hfound
    | exact sound_of_readTopic hfound
    | exact sound_of_readItem hfound
    | exact sound_of_readBus hfound

theorem readTemplates_of_object (h : body.service = .s3) :
    readTemplates body = .ok ([], none) := by
  unfold readTemplates
  rw [h]
  rfl

theorem sound_of_readBody {proxy : ServiceProxy}
    (h : readBody body = .ok proxy) : proxy.Sound := by
  obtain ⟨hhttp, htarget⟩ := readBody_steps h
  obtain ⟨hservice, htarget⟩ := sound_of_readTarget htarget
  refine ⟨sound_of_readBinding hhttp, htarget, fun hobject => ?_⟩
  obtain ⟨-, -, -, htemplates, -⟩ := readBinding_steps hhttp
  rw [readTemplates_of_object (hservice.symm.trans hobject)] at htemplates
  obtain ⟨hrequest, hresponse⟩ := Prod.mk.inj (Except.ok.inj htemplates)
  exact ⟨hrequest.symm, hresponse.symm⟩

end Schema

/-! ## The proxies of an accepted list -/

theorem sound_of_mem {descriptors : List Json} {proxies : List ServiceProxy}
    (hparse : parse descriptors = .ok proxies) {proxy : ServiceProxy}
    (hmem : proxy ∈ proxies) : proxy.Sound := by
  obtain ⟨i, descriptor, -, hread⟩ := accepted_of_mem hparse hmem
  obtain ⟨service, fields, -, hbody⟩ := Schema.readDescriptor_eq_ok.mp hread
  exact Schema.sound_of_readBody hbody

/-- Every proxy of an accepted list has what the compiler relies on, an
`OPTIONS` proxy stands on a path without CORS, and no two proxies have
the same route. -/
theorem accepted_proxies_sound {descriptors : List Json}
    {proxies : List ServiceProxy} (hparse : parse descriptors = .ok proxies) :
    (∀ proxy ∈ proxies, proxy.Sound) ∧
      (∀ proxy ∈ proxies, proxy.http.verb = .options → proxy.http.cors = none ∧
        ∀ other ∈ proxies, other.path = proxy.path → other.http.cors = none) ∧
      proxies.Pairwise fun a b =>
        ¬ (a.path = b.path ∧ a.http.verb = b.http.verb) := by
  refine ⟨fun proxy => sound_of_mem hparse, fun proxy hmem options => ?_, ?_⟩
  · have uncrossed : ∀ other ∈ proxies, other.path = proxy.path →
        other.http.cors = none := by
      intro other hother hpath
      refine Option.not_isSome_iff_eq_none.mp fun enabled => ?_
      exact path_not_mem_corsPaths hparse hmem options
        (mem_corsPaths.mpr ⟨other, hother, enabled, hpath⟩)
    exact ⟨uncrossed proxy hmem rfl, uncrossed⟩
  · refine (List.pairwise_map.mp (nodup_routes hparse)).imp
      fun {a b} hne ⟨hpath, hverb⟩ => ?_
    exact hne (Route.mk.injEq .. ▸ ⟨hpath, hverb⟩)

/-- A path that is asked for with `GET` and with `OPTIONS`, without CORS. -/
theorem accepted_proxies_sound_options :
    ∃ proxies, parse [topicDescriptor "a" "get", topicDescriptor "/a" "options"]
      = .ok proxies ∧
      (∀ proxy ∈ proxies, proxy.Sound) ∧
      (∀ proxy ∈ proxies, proxy.http.verb = .options → proxy.http.cors = none ∧
        ∀ other ∈ proxies, other.path = proxy.path → other.http.cors = none) ∧
      proxies.Pairwise fun a b =>
        ¬ (a.path = b.path ∧ a.http.verb = b.http.verb) := by
  let topic (path : String) (verb : Verb) : ServiceProxy :=
    ⟨⟨path, verb, none, none, none, none, false, none, [], none⟩,
      .sns ⟨.literal "topic"⟩⟩
  have hparse : parse [topicDescriptor "a" "get",
      topicDescriptor "/a" "options"]
        = .ok [topic "a" .get, topic "/a" .options] := by decide
  exact ⟨_, hparse, accepted_proxies_sound hparse⟩

end GatewayStack
