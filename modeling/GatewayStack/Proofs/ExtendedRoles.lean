import GatewayStack.Proofs.Acceptance
import GatewayStack.Proofs.Methods
import GatewayStack.Proofs.Roles

/-!
# What a further list leaves of the shared roles

A template that has been compiled into once can be extended with another list.
The methods of the first list stay as they are, and so does the shared role that
they are called under, unless the second list has events that share it as well.
Then the policies of the role are those of the second list: they are a list, and
a merge takes the newer of two lists for the older one
(`Permission.merge_role`).

So a method of the first list keeps its permission when the second list does not
touch the role, or when its own events happen to need the same one. For streams
it is enough that one of them needs the action and another the stream.
-/

namespace GatewayStack

open LogicalId

/-- The events that share the role of a service need, between them, the action
and the resource of this one. For streams it may take two of them. -/
def Normalized.Covers (normalized : Normalized) (service : Service)
    (event : Event) : Prop :=
  ∃ a b, normalized.SharesRole service a ∧ normalized.SharesRole service b ∧
    a.target.action = event.target.action ∧
    b.target.resourceName = event.target.resourceName ∧
    (service ≠ .kinesis → a = b)

namespace Permission

/-- The newer of two roles of a service stands, with nothing left of
the older one. -/
theorem merge_role (service : Service) (older newer : List Target) :
    Json.merge (role service older) (role service newer)
      = role service newer := by
  simp [role, Json.merge, Json.mergeFields, Fields.get?, Fields.set]

/-- What the statement for the log allows is no action on a resource
of a service. -/
theorem not_allows_logStatement (action : Json) (service : Service)
    (name : ResourceName) :
    ¬ Allows logStatement action (service.arn name) := by
  intro hallows
  obtain ⟨-, hresource⟩ := allows_allow.mp hallows
  exact Json.noConfusion (List.mem_singleton.mp hresource)

end Permission

/-- The role of the events that share it allows an event what they need. -/
theorem Normalized.exists_allows_iff_covers {normalized : Normalized}
    {service : Service} {event : Event} (hservice : event.service = service) :
    (∃ statement ∈ policyStatements
        (Permission.role service
          (Backend.sharedTargets (normalized.eventsFor service))),
      Allows statement (.str event.target.action) event.target.arn) ↔
        normalized.Covers service event := by
  have harn : event.target.arn = service.arn event.target.resourceName := by
    rw [Target.arn_eq, show event.target.service = service from hservice]
  rw [policyStatements_role, harn]
  constructor
  · rintro ⟨statement, hmem, hallows⟩
    rcases List.mem_cons.mp hmem with rfl | hmem
    · exact absurd hallows (Permission.not_allows_logStatement _ _ _)
    by_cases stream : service = .kinesis
    -- One statement lists the actions and the streams apart, so it allows every
    -- pair of them.
    · subst stream
      rw [List.mem_singleton.mp hmem] at hallows
      obtain ⟨⟨x, hx, haction⟩, y, hy, hresource⟩ :=
        Permission.allows_together.mp hallows
      obtain ⟨a, ha, rfl⟩ := Backend.mem_sharedTargets.mp hx
      obtain ⟨b, hb, rfl⟩ := Backend.mem_sharedTargets.mp hy
      exact ⟨a, b, ha, hb, Json.str.inj haction,
        Service.arn_injective hresource, fun other => absurd rfl other⟩
    · obtain ⟨target, htarget, haction, hresource⟩ :=
        Permission.exists_of_allows stream (fun _ =>
          Backend.service_of_mem_sharedTargets) hmem hallows
      obtain ⟨a, ha, rfl⟩ := Backend.mem_sharedTargets.mp htarget
      exact ⟨a, a, ha, ha, Json.str.inj haction,
        Service.arn_injective hresource, fun _ => rfl⟩
  · rintro ⟨a, b, ha, hb, haction, hname, hsame⟩
    have htargetA := Backend.mem_sharedTargets.mpr ⟨a, ha, rfl⟩
    have htargetB := Backend.mem_sharedTargets.mpr ⟨b, hb, rfl⟩
    rw [← haction, ← hname]
    by_cases stream : service = .kinesis
    · subst stream
      have hallows : Allows (Permission.together .kinesis
          (Backend.sharedTargets (normalized.eventsFor .kinesis))) (.str
          a.target.action) (Service.kinesis.arn b.target.resourceName) :=
        Permission.allows_together.mpr ⟨⟨_, htargetA, rfl⟩, _, htargetB, rfl⟩
      exact ⟨_, List.mem_cons_of_mem _ (List.mem_singleton_self _), hallows⟩
    · obtain rfl := hsame stream
      obtain ⟨statement, hmem, hallows⟩ :=
        Permission.exists_allows_of_mem service htargetA
      exact ⟨statement, List.mem_cons_of_mem _ hmem, hallows⟩

namespace Backend

/-- The role in the stage of a service, where there is one. -/
theorem get?_stage_role (api : Api) (normalized : Normalized)
    (service : Service) :
    Fields.get? (stage api normalized service).resources
      (LogicalId.role service) = none ∧
        (∀ event, ¬ normalized.SharesRole service event) ∨
      Fields.get? (stage api normalized service).resources
        (LogicalId.role service)
          = some (Permission.role service
            (sharedTargets (normalized.eventsFor service))) ∧
        ∃ event, normalized.SharesRole service event := by
  cases hrole : Fields.get? (stage api normalized service).resources
      (LogicalId.role service) with
  | none =>
      refine Or.inl ⟨rfl, fun event shares => ?_⟩
      exact Fields.get?_eq_none_iff.mp hrole
        (mem_keys_stage_role.mpr ⟨event, shares⟩)
  | some role =>
      have hmem := Fields.mem_of_get? hrole
      rw [eq_role_of_mem_stage hmem]
      exact Or.inr ⟨rfl, mem_keys_stage_role.mp (Fields.mem_keys_of_mem hmem)⟩

end Backend

namespace Compile

variable {provider : Provider} {normalized : Normalized}
  {template compiled : Template} {report : Report}

/-- A run leaves the methods alone that it does not make. -/
theorem resource?_of_not_mem_methodIds (orderly : template.Orderly)
    (h : events provider normalized template = .ok (report, compiled))
    {id : String} (hid : OfKind .method id) (hother : id ∉ report.methodIds) :
    compiled.resource? id = template.resource? id := by
  obtain ⟨restApi, -, hapi, -, rfl, -⟩ := events_eq_ok h
  have hversions : versions (stages provider normalized restApi) id = [] := by
    refine List.filterMap_eq_nil_iff.mpr fun fragment hfragment => ?_
    refine Fields.get?_eq_none_iff.mpr fun hmem => hother ?_
    have htracked := (tracks_stages hapi fragment hfragment id).mpr ⟨hmem, hid⟩
    exact List.mem_flatMap.mpr ⟨fragment, hfragment, htracked⟩
  have early : EarlyKind .method := by decide
  rw [resource?_early hapi h orderly hid early, hversions]
  rfl

theorem mem_methodIds
    (h : events provider normalized template = .ok (report, compiled))
    {event : Event} (hevent : event ∈ normalized.events) :
    Method.id event ∈ report.methodIds := by
  have hservice : event ∈ normalized.eventsFor event.service :=
    Backend.mem_eventsFor.mpr ⟨hevent, rfl⟩
  have hroute : event.route ∈ normalized.routes := by
    unfold Normalized.routes
    rw [List.mem_append, List.mem_flatMap]
    exact Or.inr ⟨event.service, Service.mem_all _,
      List.mem_map_of_mem hservice⟩
  obtain ⟨restApi, -, hapi, -, rfl, -⟩ := events_eq_ok h
  have hid : Method.id event = event.route.id := rfl
  rw [methodIds_stages hapi, hid]
  exact List.mem_map_of_mem hroute

/-- A run leaves the role of a service that it has no use for, and any other
becomes the one that the run makes. -/
theorem role_after (orderly : template.Orderly)
    (h : events provider normalized template = .ok (report, compiled))
    {service : Service} {older : List Target}
    (hrole : template.resource? (role service)
      = some (Permission.role service older)) :
    (∀ event, ¬ normalized.SharesRole service event) ∧
        compiled.resource? (role service)
          = some (Permission.role service older) ∨
      (∃ event, normalized.SharesRole service event) ∧
        compiled.resource? (role service) = some (Permission.role service
          (Backend.sharedTargets (normalized.eventsFor service))) := by
  rw [resource?_role_onto orderly h service, hrole]
  rcases Backend.get?_stage_role (Api.ofProvider provider)
      normalized service with
    ⟨hnone, unshared⟩ | ⟨hsome, shared⟩
  · rw [hnone]
    exact Or.inl ⟨unshared, rfl⟩
  · rw [hsome]
    exact Or.inr ⟨shared, congrArg some (Permission.merge_role service _ _)⟩

end Compile

theorem Normalized.SharesRole.covers {normalized : Normalized}
    {service : Service} {event : Event}
    (h : normalized.SharesRole service event) :
    normalized.Covers service event :=
  ⟨event, event, h, h, rfl, rfl, fun _ => rfl⟩

/-- Two lists without a common method are compiled into a template one after the
other. An event of the first that is called under a shared role keeps its method
as it was. The role is there, and it still allows the event its action on its
resource just if no event of the second list shares the role, or those that do
need the same themselves. -/
theorem extended_role_allows_iff {a b : Provider} {as bs : List Json}
    {firsts seconds : List ServiceProxy} {left report : Report}
    {middle final : Template} (hfirst : parse as = .ok firsts)
    (hsecond : parse bs = .ok seconds)
    (before : compile a as Template.empty = (.ok left, middle))
    (h : compile b bs middle = (.ok report, final))
    (apart : left.methodIds.Disjoint report.methodIds) {service : Service}
    {event : Event}
    (shares : (Normalized.ofProxies firsts).SharesRole service event) :
    final.resource? (Method.id event) = middle.resource? (Method.id event) ∧
      ∃ role, final.resource? (LogicalId.role service) = some role ∧
        ((∃ statement ∈ policyStatements role,
            Allows statement (.str event.target.action) event.target.arn) ↔
          (∀ other, ¬ (Normalized.ofProxies seconds).SharesRole service other) ∨
            (Normalized.ofProxies seconds).Covers service event) := by
  have nonempty : as ≠ [] := by
    rintro rfl
    obtain rfl := Except.ok.inj hfirst
    exact absurd shares.1 List.not_mem_nil
  obtain ⟨found, hfound, hevents⟩ := Compile.compile_eq_ok nonempty before
  rw [hfirst] at hfound
  obtain rfl := Except.ok.inj hfound
  have orderly : middle.Orderly :=
    Compile.orderly_compile before Template.orderly_empty
  have hrole : middle.resource? (role service) = some (Permission.role service
      (Backend.sharedTargets ((Normalized.ofProxies firsts).eventsFor
        service))) := by
    rw [Compile.resource?_role hevents]
    rcases Backend.get?_stage_role (Api.ofProvider a)
        (Normalized.ofProxies firsts) service with
      ⟨-, unshared⟩ | ⟨hsome, -⟩
    · exact absurd shares (unshared event)
    · exact hsome
  have kept : ∃ statement ∈ policyStatements (Permission.role service
      (Backend.sharedTargets
        ((Normalized.ofProxies firsts).eventsFor service))),
      Allows statement (.str event.target.action) event.target.arn :=
    (Normalized.exists_allows_iff_covers shares.2.1).mpr shares.covers
  by_cases empty : bs = []
  · subst empty
    obtain rfl := Except.ok.inj hsecond
    obtain ⟨-, rfl⟩ := Prod.mk.inj h
    refine ⟨rfl, _, hrole, iff_of_true kept (Or.inl fun other hother => ?_)⟩
    exact absurd hother.1 List.not_mem_nil
  obtain ⟨found, hfound, hrun⟩ := Compile.compile_eq_ok empty h
  rw [hsecond] at hfound
  obtain rfl := Except.ok.inj hfound
  have hmethod : Method.id event ∉ report.methodIds :=
    fun hmem => apart (Compile.mem_methodIds hevents shares.1) hmem
  refine ⟨Compile.resource?_of_not_mem_methodIds orderly hrun
    (.method event.path event.verb) hmethod, ?_⟩
  rcases Compile.role_after orderly hrun hrole with ⟨unshared, hkept⟩ |
    ⟨⟨other, shared⟩, hnew⟩
  · exact ⟨_, hkept, iff_of_true kept (Or.inl unshared)⟩
  · refine ⟨_, hnew, (Normalized.exists_allows_iff_covers shares.2.1).trans ?_⟩
    exact (or_iff_right fun unshared => unshared other shared).symm

/-- The proxy of a descriptor in front of a topic. -/
def topicProxy (path : String) (verb : Verb) : ServiceProxy :=
  ⟨⟨path, verb, none, none, none, none, false, none, [], none⟩,
    .sns ⟨.literal "topic"⟩⟩

/-- A topic beside a stream leaves the role of the stream alone. -/
theorem extended_role_other_service :
    ∃ left report middle final,
      parse [streamDescriptor "a" "PutRecord"]
        = .ok [streamProxy "a" .putRecord] ∧
      parse [topicDescriptor "b" "get"] = .ok [topicProxy "b" .get] ∧
      compile (Provider.ofStage "shop" "dev" "1")
          [streamDescriptor "a" "PutRecord"] Template.empty
        = (.ok left, middle) ∧
      compile (Provider.ofStage "shop" "dev" "1")
          [topicDescriptor "b" "get"] middle
        = (.ok report, final) ∧
      left.methodIds.Disjoint report.methodIds ∧
      (Normalized.ofProxies [streamProxy "a" .putRecord]).SharesRole .kinesis
        (Event.ofProxy (streamProxy "a" .putRecord)) ∧
      ∃ role, final.resource? (LogicalId.role .kinesis) = some role ∧
        ∃ statement ∈ policyStatements role,
          Allows statement "kinesis:PutRecord"
            (streamProxy "a" .putRecord).target.arn := by
  have hfirst : parse [streamDescriptor "a" "PutRecord"]
      = .ok [streamProxy "a" .putRecord] := by decide
  have hsecond : parse [topicDescriptor "b" "get"]
      = .ok [topicProxy "b" .get] := by decide
  have before :=
    compile_eq_of_report
      (show (compile (Provider.ofStage "shop" "dev" "1")
        [streamDescriptor "a" "PutRecord"] Template.empty).1
      = .ok ⟨1, ["ApiGatewayMethodAPost"],
        some "ApiGatewayDeployment1"⟩ by decide)
  have h := compile_eq_of_report
    (show (compile (Provider.ofStage "shop" "dev" "1")
        [topicDescriptor "b" "get"] (compile (Provider.ofStage "shop" "dev" "1")
        [streamDescriptor "a" "PutRecord"] Template.empty).2).1
      = .ok ⟨1, ["ApiGatewayMethodBGet"],
        some "ApiGatewayDeployment1"⟩ by decide)
  have apart : ["ApiGatewayMethodAPost"].Disjoint ["ApiGatewayMethodBGet"] := by
    unfold List.Disjoint
    decide
  have shares : (Normalized.ofProxies [streamProxy "a" .putRecord]).SharesRole
      .kinesis (Event.ofProxy (streamProxy "a" .putRecord)) := by
    unfold Normalized.SharesRole
    decide
  have topics : ∀ other ∈ (Normalized.ofProxies [topicProxy "b" .get]).events,
      other.service ≠ .kinesis := by decide
  obtain ⟨-, role, hrole, hallows⟩ :=
    extended_role_allows_iff hfirst hsecond before h apart shares
  refine ⟨_, _, _, _, hfirst, hsecond, before, h, apart, shares,
    role, hrole, ?_⟩
  exact hallows.mpr (Or.inl fun other hother =>
    topics other hother.1 hother.2.1)

/-- The role of the streams allows the method of the first list nothing any
more, once there is another stream. -/
theorem extended_role_revoked :
    let provider := Provider.ofStage "shop" "dev" "1"
    let first := compile provider [streamDescriptor "a" "PutRecord"]
      Template.empty
    let second := compile provider [streamDescriptor "b" "PutRecord"] first.2
    first.1 = .ok ⟨1, ["ApiGatewayMethodAPost"], some "ApiGatewayDeployment1"⟩ ∧
      second.1 = .ok ⟨1, ["ApiGatewayMethodBPost"],
        some "ApiGatewayDeployment1"⟩ ∧
      ((second.2.resource? "ApiGatewayMethodAPost").bind fun method =>
          method.at? ["Properties", "Integration", "Credentials"])
        = some (.obj [("Fn::GetAtt",
          .arr ["ApigatewayToKinesisRole", "Arn"])]) ∧
      ∃ role, second.2.resource? "ApigatewayToKinesisRole" = some role ∧
        ∀ statement ∈ policyStatements role,
          ¬ Allows statement "kinesis:PutRecord"
            (streamProxy "a" .putRecord).target.arn := by
  refine ⟨by decide, by decide, by decide +kernel,
    Permission.role .kinesis [(streamProxy "b" .putRecord).target],
    by decide +kernel, by decide⟩

end GatewayStack
