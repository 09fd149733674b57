import GatewayStack.Proofs.Requests

/-!
# Two lists of responses

A method lists its responses twice: the integration says what is mapped into
each, the method declares what each may carry. The lists are made apart from one
another, and they have to agree, or the method cannot be deployed.

What a pair of responses has to say is stated for the event alone
(`Event.Mirrored`): the status, the header with the allowed origin, the headers
of an object, and the template that is configured for the hundreds of the
status. Nothing else is mapped. Written out, the mapped parameters are the
origin followed by the headers of the object, since no header of an object is
the one with the origin (`Method.responseParameters_ofEvent`), and the declared
ones have the same names.
-/

namespace GatewayStack

/-! ## What a response says -/

/-- Whether ranges of an object can be asked for. -/
def Target.partialContent : Target → Bool
  | .s3 target => target.partialContent
  | _ => false

/-- The statuses that a method tells apart, in order. -/
def Target.statuses (target : Target) : List Nat :=
  if target.partialContent then [200, 206, 400, 500] else [200, 400, 500]

/-- The headers of an object that a success passes on, by what is done
with the object. -/
def ObjectAction.passedHeaders : ObjectAction → List String
  | .getObject | .putObject => ["Content-Type", "Content-Length"]
  | .deleteObject => ["Content-Type", "Date"]

def Target.passedHeaders : Target → List String
  | .s3 target => target.action.passedHeaders
  | _ => []

/-- The template that is configured for the responses with a status. -/
def Event.template? (event : Event) (status : Nat) : Option String :=
  event.responseTemplates.bind fun templates =>
    match status / 100 with
    | 2 => templates.success
    | 4 => templates.clientError
    | 5 => templates.serverError
    | _ => none

/-- The two sides of the response with a status: what the integration maps and
what the method declares. -/
structure Event.Mirrored (event : Event) (status : Nat)
    (mapped declared : Json) : Prop where
  statuses : mapped.field? "StatusCode" = some (Json.nat status) ∧
    declared.field? "StatusCode" = some (Json.nat status)
  declares : ∀ name, (mapped.at? ["ResponseParameters", name]).isSome ↔
    declared.at? ["ResponseParameters", name] = some (.bool true)
  origin : mapped.at? ["ResponseParameters",
    "method.response.header.Access-Control-Allow-Origin"]
      = event.cors.map fun policy => .str ("'" ++ policy.allowOrigin ++ "'")
  passed : ∀ name, name ≠ "method.response.header.Access-Control-Allow-Origin" →
    ∀ value, mapped.at? ["ResponseParameters", name] = some value ↔
      (status = 200 ∨ status = 206) ∧ ∃ header ∈ event.target.passedHeaders,
        name = "method.response.header." ++ header ∧
          value = .str ("integration.response.header." ++ header)
  templates : ∀ type value, mapped.at? ["ResponseTemplates", type]
    = some value ↔
    type = "application/json" ∧ ∃ text, event.template? status = some text ∧
      value = .str text

/-! ## The parameters of a response -/

namespace Integration

theorem partialContent_ofEvent (event : Event) :
    (ofEvent event).partialContent = event.target.partialContent := by
  unfold ofEvent
  split <;> next htarget => rw [htarget]; rfl

theorem successParameters_ofEvent (event : Event) :
    (ofEvent event).successParameters
      = event.target.passedHeaders.map fun header =>
      (responseHeader header,
          .str ("integration.response.header." ++ header)) := by
  unfold ofEvent
  split
  case h_3 target htarget =>
    rw [htarget]
    show (objectHeaders target.action).map _ = target.action.passedHeaders.map _
    cases target.action <;> rfl
  all_goals next htarget => rw [htarget]; rfl

end Integration

theorem Target.nodup_headers (target : Target) :
    (allowOriginHeader :: target.passedHeaders.map responseHeader).Nodup := by
  cases target with
  | s3 target =>
      show (allowOriginHeader :: target.action.passedHeaders.map
        responseHeader).Nodup
      cases target.action <;> decide
  | _ => exact List.nodup_singleton _

namespace Method

variable (event : Event)

/-- The origin that every response carries, when the event has a policy. -/
def originParameter : Fields Json :=
  (event.cors.map fun policy =>
    (allowOriginHeader, constant policy.allowOrigin)).toList

/-- The headers that a success passes on. -/
def passedParameters : Fields Json :=
  event.target.passedHeaders.map fun header =>
    (responseHeader header, .str ("integration.response.header." ++ header))

theorem keys_passedParameters :
    Fields.keys (passedParameters event)
      = event.target.passedHeaders.map responseHeader := by
  unfold Fields.keys passedParameters
  rw [List.map_map]
  rfl

theorem not_mem_keys_originParameter {name : String}
    (h : name ≠ allowOriginHeader) :
    name ∉ Fields.keys (originParameter event) := by
  unfold originParameter
  cases event.cors <;> simp [h]

theorem not_mem_keys_passedParameters :
    allowOriginHeader ∉ Fields.keys (passedParameters event) := by
  rw [keys_passedParameters]
  exact (List.nodup_cons.mp event.target.nodup_headers).1

theorem distinct_passedParameters :
    Fields.Distinct (passedParameters event) := by
  unfold Fields.Distinct
  rw [keys_passedParameters]
  exact (List.nodup_cons.mp event.target.nodup_headers).2

theorem distinct_parameters :
    Fields.Distinct (originParameter event ++ passedParameters event) := by
  unfold originParameter
  cases event.cors with
  | none => exact distinct_passedParameters event
  | some policy =>
      exact List.nodup_cons.mpr
        ⟨not_mem_keys_passedParameters event, distinct_passedParameters event⟩

/-- Written over the origin, the passed headers replace nothing. -/
theorem responseParameters_ofEvent (outcome : Outcome) :
    responseParameters event (Integration.ofEvent event) outcome
      = originParameter event ++ if outcome = .success then
        passedParameters event else [] := by
  have written : responseParameters event (Integration.ofEvent event) outcome
      = if outcome = .success
        then Fields.setAll (originParameter event)
        (Integration.ofEvent event).successParameters
        else originParameter event := by
    unfold responseParameters originParameter
    cases event.cors <;> rfl
  rw [written, Integration.successParameters_ofEvent]
  split
  · exact Fields.setAll_of_distinct (distinct_parameters event)
  · exact (List.append_nil _).symm

theorem get?_origin (outcome : Outcome) :
    Fields.get? (responseParameters event (Integration.ofEvent event) outcome)
        allowOriginHeader
      = event.cors.map fun policy => constant policy.allowOrigin := by
  have absent : Fields.get? (if outcome = .success then
      passedParameters event else []) allowOriginHeader = none := by
    split
    · exact Fields.get?_eq_none_iff.mpr (not_mem_keys_passedParameters event)
    · rfl
  rw [responseParameters_ofEvent, Fields.get?_append, absent, Option.or_none]
  unfold originParameter
  cases event.cors <;> simp [Fields.get?]

theorem get?_passed {outcome : Outcome} {name : String}
    (h : name ≠ allowOriginHeader) {value : Json} :
    Fields.get? (responseParameters event (Integration.ofEvent event) outcome)
      name = some value ↔
      outcome = .success ∧ ∃ header ∈ event.target.passedHeaders,
        name = responseHeader header ∧
          value = .str ("integration.response.header." ++ header) := by
  have absent := Fields.get?_eq_none_iff.mpr
    (not_mem_keys_originParameter event h)
  rw [responseParameters_ofEvent, Fields.get?_append, absent, Option.none_or]
  split
  · next success =>
      rw [Fields.get?_eq_some_iff (distinct_passedParameters event)]
      simp [passedParameters, success, eq_comm]
  · next failure => simp [failure]

/-! ## The responses of a method -/

theorem field?_integrationResponses (integration : Integration) :
    (integrationBlock event integration).field? "IntegrationResponses"
      = some (.arr ((responseKinds integration.partialContent).map
          (integrationResponse event integration))) := by
  unfold integrationBlock
  cases integration.requestParameters
    <;> cases integration.requestTemplates <;> rfl

theorem at?_integrationResponses (api : Api) :
    (resource api event).at? ["Properties", "Integration",
      "IntegrationResponses"]
        = some (.arr ((responseKinds
            (Integration.ofEvent event).partialContent).map (integrationResponse
            event (Integration.ofEvent event)))) := by
  rw [at?_integration_append, Json.at?_cons, field?_integrationResponses]
  rfl

theorem at?_methodResponses (api : Api) :
    (resource api event).at? ["Properties", "MethodResponses"]
      = some (.arr ((responseKinds
          (Integration.ofEvent event).partialContent).map (methodResponse event
          (Integration.ofEvent event)))) := by
  unfold resource resourceOf
  cases event.authorizerId <;> cases event.authorizationScopes <;> rfl

theorem map_status_responseKinds (target : Target) :
    (responseKinds target.partialContent).map ResponseKind.status
      = target.statuses := by
  unfold Target.statuses
  cases target.partialContent <;> rfl

/-- A kind of response is a success by its status, and has the template of
its hundreds. -/
theorem outcome_of_mem_responseKinds {partialContent : Bool}
    {kind : ResponseKind} (h : kind ∈ responseKinds partialContent) :
    (kind.outcome = .success ↔ kind.status = 200 ∨ kind.status = 206) ∧
      (event.responseTemplates.bind fun templates =>
        templates.forOutcome? kind.outcome)
          = event.template? kind.status := by
  unfold responseKinds at h
  split at h <;> simp only [List.cons_append, List.nil_append, List.mem_cons,
    List.not_mem_nil, or_false] at h
  · rcases h with rfl | rfl | rfl | rfl <;> exact ⟨by decide, rfl⟩
  · rcases h with rfl | rfl | rfl <;> exact ⟨by decide, rfl⟩

/-- What is mapped into a response of one kind, and what is declared for it. -/
theorem mirrored_of_mem_responseKinds {partialContent : Bool}
    {kind : ResponseKind} (h : kind ∈ responseKinds partialContent) :
    event.Mirrored kind.status (integrationResponse event
      (Integration.ofEvent event) kind) (methodResponse event
      (Integration.ofEvent event) kind) := by
  obtain ⟨success, template⟩ := outcome_of_mem_responseKinds event h
  have mapped (name : String) :
      (integrationResponse event (Integration.ofEvent event) kind).at?
          ["ResponseParameters", name]
        = Fields.get? (responseParameters event (Integration.ofEvent event)
          kind.outcome) name :=
    Option.bind_fun_some _
  refine ⟨⟨rfl, rfl⟩, fun name => ?_, ?_, fun name hname value => ?_,
    fun type value => ?_⟩
  · have declared : (methodResponse event (Integration.ofEvent event) kind).at?
        ["ResponseParameters", name] = (Fields.get? (responseParameters event
          (Integration.ofEvent event) kind.outcome) name).map
          fun _ => .bool true :=
      (Option.bind_fun_some _).trans (Fields.get?_mapValues _ _ name)
    rw [mapped, declared]
    cases Fields.get? (responseParameters event (Integration.ofEvent event)
      kind.outcome) name <;> simp
  · exact (mapped _).trans (get?_origin event kind.outcome)
  · rw [mapped, ← success]
    exact get?_passed event hname
  · have written :
        (integrationResponse event (Integration.ofEvent event) kind).at?
            ["ResponseTemplates", type]
          = Fields.get? (optionalProperty "application/json"
              ((event.template? kind.status).map Json.str)) type := by
      rw [← template]
      exact Option.bind_fun_some _
    rw [written]
    cases event.template? kind.status with
    | none => simp [optionalProperty]
    | some text => simp [optionalProperty, Fields.get?, eq_comm]

end Method

/-- The two lists of responses of a method are the two sides of the same
responses: one for each status, in order, each with what it has to say. -/
theorem responses_mirrored (api : Api) (event : Event) :
    ∃ responses : List (Json × Json),
      (Method.resource api event).at? ["Properties", "Integration",
        "IntegrationResponses"]
          = some (.arr (responses.map Prod.fst)) ∧
      (Method.resource api event).at? ["Properties", "MethodResponses"]
        = some (.arr (responses.map Prod.snd)) ∧
      List.Forall₂ (fun status response =>
        event.Mirrored status response.1 response.2) event.target.statuses
        responses := by
  let integration := Integration.ofEvent event
  let response (kind : ResponseKind) : Json × Json :=
    (Method.integrationResponse event integration kind,
      Method.methodResponse event integration kind)
  refine ⟨(Method.responseKinds integration.partialContent).map response,
    ?_, ?_, ?_⟩
  · rw [Method.at?_integrationResponses, List.map_map]
    rfl
  · rw [Method.at?_methodResponses, List.map_map]
    rfl
  · rw [← Method.map_status_responseKinds, ← Integration.partialContent_ofEvent,
      List.forall₂_map_left_iff, List.forall₂_map_right_iff, List.forall₂_same]
    exact fun kind => Method.mirrored_of_mem_responseKinds event

end GatewayStack
