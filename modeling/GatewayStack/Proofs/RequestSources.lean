import GatewayStack.Proofs.Requests

/-!
# Where request parameters come from

A parameter of an integration may read a part of the method's own request, and
API Gateway refuses a method that does not declare such a part. The parameters
come from several sides: every service writes its own, and a queue and an object
take configured ones that are written over them.

An object declares whatever its finished parameters read, so there the
configuration may say what it likes. A queue leaves the declaring to the
configuration: it declares what is accepted there. Its own parameters read
nothing that has to be declared, so the configured ones are the only ones that
can be missing, and they are exactly when they are not accepted
(`request_sources_declared_iff`). That takes the configured names to be
different, or a parameter could be written over by another one; they are, since
they were read from a mapping.
-/

namespace GatewayStack

/-- The source is a part of the request that has to be declared. -/
def ReadsRequest (source : String) : Prop :=
  ∃ place ∈ ["path", "querystring", "header"],
    ("method.request." ++ place ++ ".").toList <+: source.toList

instance (source : String) : Decidable (ReadsRequest source) :=
  inferInstanceAs (Decidable (∃ place ∈ _, _))

theorem ReadsRequest.begins {source : String} (h : ReadsRequest source) :
    "method.".toList <+: source.toList := by
  obtain ⟨place, hplace, hprefix⟩ := h
  have places : ∀ place ∈ ["path", "querystring", "header"],
      "method.".toList <+: ("method.request." ++ place ++ ".").toList := by
    decide
  exact (places place hplace).trans hprefix

/-- A constant is quoted. -/
theorem not_readsRequest_quoted (value : String) :
    ¬ ReadsRequest ("'" ++ value ++ "'") := by
  intro h
  have hprefix := h.begins
  rw [String.toList_append, String.toList_append] at hprefix
  exact absurd (List.cons_prefix_cons.mp hprefix).1 (by decide)

namespace Integration

/-- A parameter reads this part of the request. -/
def Reads (integration : Integration) (source : String) : Prop :=
  ReadsRequest source ∧ ∃ name, Fields.get? integration.requestParameters name
    = some (.str source)

/-- Whatever part of the request a parameter reads is declared. -/
def Declares (integration : Integration) : Prop :=
  ∀ source, integration.Reads source →
    source ∈ Fields.keys integration.methodParameters

/-! ## Generated parameters -/

theorem declares_of_constants {integration : Integration}
    (h : ∀ entry ∈ integration.requestParameters, ∃ value,
      entry.2 = constant value) :
    integration.Declares := by
  rintro source ⟨reads, name, hget⟩
  obtain ⟨value, hvalue⟩ := h _ (Fields.mem_of_get? hget)
  rw [Json.str.inj hvalue] at reads
  exact absurd reads (not_readsRequest_quoted value)

/-- The parameters of an object declare everything of the method that they
read. -/
theorem mem_keys_readParameters {parameters : Fields Json} {source : String} :
    source ∈ Fields.keys (readParameters parameters) ↔
      .str source ∈ Fields.values parameters ∧
        "method.".toList <+: source.toList := by
  unfold readParameters
  rw [Fields.keys_ofEntries, FirstSeen.mem_distinct, Fields.keys, List.map_map,
    Function.comp_def, List.map_id', List.mem_filter, List.mem_filterMap,
    List.isPrefixOf_iff_prefix]
  simp only [Json.string?_eq_some, exists_eq_right]

theorem declares_object (target : ObjectTarget) : (object target).Declares := by
  rintro source ⟨reads, name, hget⟩
  refine mem_keys_readParameters.mpr ⟨?_, reads.begins⟩
  exact List.mem_map.mpr ⟨_, Fields.mem_of_get? hget, rfl⟩

/-- Only a queue can leave out what it reads. -/
theorem declares_of_not_queue {event : Event}
    (h : ∀ target, event.target ≠ .sqs target) :
    (ofEvent event).Declares := by
  have none (uri : Json) : (named uri event).Declares :=
    declares_of_constants (List.forall_mem_nil _)
  unfold ofEvent
  cases htarget : event.target with
  | sqs target => exact absurd htarget (h target)
  | kinesis target => exact none _
  | s3 target => exact declares_object target
  | sns target =>
      exact declares_of_constants (List.forall_mem_singleton.mpr ⟨_, rfl⟩)
  | dynamodb target => exact none _
  | eventBridge target =>
      refine declares_of_constants (List.forall_mem_cons.mpr ⟨⟨_, rfl⟩, ?_⟩)
      exact List.forall_mem_singleton.mpr ⟨_, rfl⟩

/-! ## Configured parameters -/

theorem get?_withConfigured_of_mem {configured : Fields String}
    (distinct : configured.Distinct) {name value : String}
    (h : (name, value) ∈ configured) (generated : Fields Json) :
    Fields.get? (withConfigured generated configured) name
      = some (.str value) := by
  have distinctMapped : Fields.Distinct
      (Fields.mapValues Json.str configured) := by
    unfold Fields.Distinct
    rwa [Fields.keys_mapValues]
  have hmem : (name, Json.str value) ∈ Fields.mapValues Json.str configured :=
    List.mem_map.mpr ⟨_, h, rfl⟩
  rw [withConfigured, Fields.get?_setAll, Fields.get?_reverse distinctMapped,
    Fields.get?_of_mem distinctMapped hmem, Option.some_or]

theorem keys_methodParameters_queue (event : Event) (target : QueueTarget) :
    Fields.keys (queue event target).methodParameters
      = Fields.keys target.acceptParameters :=
  Fields.keys_mapValues _ _

/-- What a queue reads of the request is configured. -/
theorem reads_queue_iff (event : Event) {target : QueueTarget}
    (distinct : Fields.Distinct target.requestParameters) {source : String} :
    (queue event target).Reads source ↔
      ReadsRequest source ∧ ∃ name,
        (name, source) ∈ target.requestParameters := by
  refine and_congr_right fun reads => ⟨?_, ?_⟩
  · rintro ⟨name, hget⟩
    rcases Fields.mem_setAll (Fields.mem_of_get? hget) with hmem | hmem
    · have silent : ¬ ReadsRequest "method.request.body" := by decide
      simp only [List.mem_cons, List.not_mem_nil, or_false,
        Prod.mk.injEq] at hmem
      rcases hmem with ⟨-, hvalue⟩ | ⟨-, hvalue⟩
      · rw [Json.str.inj hvalue] at reads
        exact absurd reads (not_readsRequest_quoted _)
      · rw [Json.str.inj hvalue] at reads
        exact absurd reads silent
    · obtain ⟨entry, hentry, heq⟩ := List.mem_map.mp hmem
      obtain ⟨-, hvalue⟩ := Prod.mk.inj heq
      rw [← Json.str.inj hvalue]
      exact ⟨entry.1, hentry⟩
  · rintro ⟨name, hentry⟩
    exact ⟨name, get?_withConfigured_of_mem distinct hentry _⟩

/-! ## Every service -/

variable {event : Event}

theorem ofEvent_of_queue {target : QueueTarget}
    (h : event.target = .sqs target) :
    ofEvent event = queue event target := by
  unfold ofEvent
  rw [h]

theorem forall_queue_iff {P : QueueTarget → Prop} {target : QueueTarget}
    (h : event.target = .sqs target) :
    (∀ other, event.target = .sqs other → P other) ↔ P target :=
  ⟨fun all => all target h, fun holds _ heq =>
    Target.sqs.inj (h.symm.trans heq) ▸ holds⟩

/-- What is read is declared, except that a queue has to accept it. -/
theorem declared_iff {source : String} (reads : (ofEvent event).Reads source) :
    source ∈ Fields.keys (ofEvent event).methodParameters ↔
      ∀ target, event.target = .sqs target →
        source ∈ Fields.keys target.acceptParameters := by
  by_cases queued : ∃ target, event.target = .sqs target
  · obtain ⟨target, htarget⟩ := queued
    rw [forall_queue_iff htarget, ofEvent_of_queue htarget,
      keys_methodParameters_queue]
  · rw [not_exists] at queued
    exact iff_of_true (declares_of_not_queue queued source reads)
      fun target htarget => absurd htarget (queued target)

theorem declares_iff
    (distinct : ∀ target, event.target = .sqs target →
      Fields.Distinct target.requestParameters) :
    (ofEvent event).Declares ↔ ∀ target, event.target = .sqs target →
      ∀ entry ∈ target.requestParameters, ReadsRequest entry.2 →
        entry.2 ∈ Fields.keys target.acceptParameters := by
  by_cases queued : ∃ target, event.target = .sqs target
  · obtain ⟨target, htarget⟩ := queued
    rw [forall_queue_iff htarget, ofEvent_of_queue htarget, Declares,
      keys_methodParameters_queue]
    simp only [reads_queue_iff event (distinct target htarget)]
    exact ⟨fun h entry hentry reads => h entry.2 ⟨reads, entry.1, hentry⟩,
      fun h source ⟨reads, name, hentry⟩ => h (name, source) hentry reads⟩
  · rw [not_exists] at queued
    exact iff_of_true (declares_of_not_queue queued)
      fun target htarget => absurd htarget (queued target)

end Integration

/-! ## The parameters of an accepted queue -/

namespace Schema

theorem distinct_requestParameters {body : Section} {target : QueueTarget}
    (h : readTarget body = .ok (.sqs target)) :
    Fields.Distinct target.requestParameters := by
  unfold readTarget at h
  split at h <;> obtain ⟨found, hfound, heq⟩ := map_eq_ok.mp h <;> cases heq
  obtain ⟨queue, -, hfound⟩ := bind_eq_ok.mp hfound
  obtain ⟨requested, hrequested, hfound⟩ := bind_eq_ok.mp hfound
  obtain ⟨accepted, -, hfound⟩ := bind_eq_ok.mp hfound
  rw [← Except.ok.inj hfound]
  exact distinct_of_stringMap hrequested

end Schema

theorem distinct_requestParameters_of_mem {descriptors : List Json}
    {proxies : List ServiceProxy} (hparse : parse descriptors = .ok proxies)
    {proxy : ServiceProxy} (hmem : proxy ∈ proxies) {target : QueueTarget}
    (hsqs : proxy.target = .sqs target) :
    Fields.Distinct target.requestParameters := by
  obtain ⟨i, descriptor, -, hread⟩ := accepted_of_mem hparse hmem
  obtain ⟨service, fields, -, hbody⟩ := Schema.readDescriptor_eq_ok.mp hread
  have htarget := (Schema.readBody_steps hbody).2
  rw [hsqs] at htarget
  exact Schema.distinct_requestParameters htarget

/-! ## The parameters of a method -/

namespace Method

/-- A parameter of the method's integration reads this part of the request. -/
def Reads (method : Json) (source : String) : Prop :=
  ReadsRequest source ∧ ∃ name,
    method.at? ["Properties", "Integration", "RequestParameters", name]
      = some (.str source)

/-- The method declares this part of the request. -/
def Declares (method : Json) (source : String) : Prop :=
  (method.at? ["Properties", "RequestParameters", source]).isSome

variable (api : Api) (event : Event)

theorem field?_requestParameters (integration : Integration) :
    (integrationBlock event integration).field? "RequestParameters"
      = if integration.requestParameters.isEmpty then none
        else some (.obj integration.requestParameters) := by
  unfold integrationBlock
  cases integration.requestParameters
    <;> cases integration.requestTemplates <;> rfl

theorem at?_requestParameter (name : String) :
    (resource api event).at? ["Properties", "Integration",
      "RequestParameters", name]
        = Fields.get? (Integration.ofEvent event).requestParameters name := by
  rw [at?_integration_append, Json.at?_cons, field?_requestParameters]
  split
  · next hempty => rw [List.isEmpty_iff.mp hempty]; rfl
  · exact Option.bind_fun_some _

theorem at?_methodParameter (name : String) :
    (resource api event).at? ["Properties", "RequestParameters", name]
      = Fields.get? (Integration.ofEvent event).methodParameters name := by
  unfold resource resourceOf
  exact Option.bind_fun_some _

theorem reads_iff {source : String} :
    Reads (resource api event) source ↔
      (Integration.ofEvent event).Reads source := by
  unfold Reads Integration.Reads
  simp only [at?_requestParameter]

theorem declares_iff {source : String} :
    Declares (resource api event) source ↔
      source ∈ Fields.keys (Integration.ofEvent event).methodParameters := by
  unfold Declares
  rw [at?_methodParameter, ← Fields.contains_iff]
  rfl

end Method

/-- Every part of the request that an integration reads is declared by its
method, except that a queue declares what it accepts. So everything that is
read is declared exactly when a queue accepts whatever its configured
parameters read. -/
theorem request_sources_declared_iff {descriptors : List Json}
    {proxies : List ServiceProxy} (hparse : parse descriptors = .ok proxies)
    {proxy : ServiceProxy} (hmem : proxy ∈ proxies) (api : Api) :
    let method := Method.resource api (Event.ofProxy proxy)
    (∀ source, Method.Reads method source →
        (Method.Declares method source ↔ ∀ target, proxy.target = .sqs target →
          source ∈ Fields.keys target.acceptParameters)) ∧
      ((∀ source, Method.Reads method source → Method.Declares method source) ↔
        ∀ target, proxy.target = .sqs target →
          ∀ entry ∈ target.requestParameters, ReadsRequest entry.2 →
            entry.2 ∈ Fields.keys target.acceptParameters) := by
  intro method
  have distinct : ∀ target, (Event.ofProxy proxy).target = .sqs target →
      Fields.Distinct target.requestParameters :=
    fun target => distinct_requestParameters_of_mem hparse hmem
  simp only [method, Method.reads_iff, Method.declares_iff]
  exact ⟨fun source => Integration.declared_iff,
    Integration.declares_iff distinct⟩

/-- A queue whose messages wait as long as a header of the request says. -/
def delayedQueueDescriptor (further : Fields Json) : Json :=
  .obj [("sqs", .obj (("path", "a") :: ("method", "post") ::
    ("queueName", "q") :: ("requestParameters",
      .obj [("integration.request.querystring.DelaySeconds",
        "method.request.header.Delay")]) :: further))]

/-- The proxy of that descriptor. -/
def delayedQueueProxy (accepted : List (String × Bool)) : ServiceProxy :=
  ⟨⟨"a", .post, none, none, none, none, false, none, [], none⟩,
    .sqs ⟨.literal "q", [("integration.request.querystring.DelaySeconds",
      "method.request.header.Delay")], accepted⟩⟩

/-- With the header accepted, all that is read is declared. -/
theorem request_sources_declared_delay :
    let method := Method.resource ⟨"api", "root", []⟩
      (Event.ofProxy (delayedQueueProxy
        [("method.request.header.Delay", true)]))
    parse [delayedQueueDescriptor
        [("acceptParameters", .obj [("method.request.header.Delay", true)])]]
      = .ok [delayedQueueProxy [("method.request.header.Delay", true)]] ∧
    Method.Reads method "method.request.header.Delay" ∧
    ∀ source, Method.Reads method source → Method.Declares method source := by
  intro method
  have hparse : parse [delayedQueueDescriptor
      [("acceptParameters", .obj [("method.request.header.Delay", true)])]]
        = .ok [delayedQueueProxy [("method.request.header.Delay", true)]] := by
    decide
  refine ⟨hparse,
    ⟨by decide, "integration.request.querystring.DelaySeconds", by decide⟩,
    (request_sources_declared_iff hparse List.mem_cons_self _).2.mpr ?_⟩
  rintro target ⟨⟩
  decide

/-- Without it, the method reads a header that it does not declare. -/
theorem undeclared_header :
    let method := Method.resource ⟨"api", "root", []⟩
      (Event.ofProxy (delayedQueueProxy []))
    parse [delayedQueueDescriptor []] = .ok [delayedQueueProxy []] ∧
      Method.Reads method "method.request.header.Delay" ∧
      ¬ Method.Declares method "method.request.header.Delay" := by
  intro method
  exact ⟨by decide, ⟨by decide, "integration.request.querystring.DelaySeconds",
    by decide⟩, by unfold Method.Declares; decide⟩

end GatewayStack
