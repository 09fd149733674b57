import GatewayStack.Stack.Integration

/-!
# Methods

The method of an event: who may call it, what it integrates with, and what it
answers. Every response of the integration has a response of the method with
the same status, and every header that the one maps the other declares.
-/

namespace GatewayStack

/-- How a call to the service went. -/
inductive Outcome where
  | success
  | clientError
  | serverError
  deriving DecidableEq, Repr

/-- A response that a method distinguishes, by a pattern on the status of the
service. -/
structure ResponseKind where
  status : Nat
  pattern : String
  outcome : Outcome
  deriving DecidableEq, Repr

namespace ResponseTemplates

def forOutcome? (templates : ResponseTemplates) : Outcome → Option String
  | .success => templates.success
  | .clientError => templates.clientError
  | .serverError => templates.serverError

end ResponseTemplates

namespace Method

/-- The responses of a method. -/
def responseKinds (partialContent : Bool) : List ResponseKind :=
  [⟨200, "2\\d\x7b2\x7d", .success⟩]
    ++ (if partialContent then [⟨206, "206", .success⟩] else [])
    ++ [⟨400, "4\\d\x7b2\x7d", .clientError⟩,
      ⟨500, "5\\d\x7b2\x7d", .serverError⟩]

def responseParameters (event : Event) (integration : Integration)
    (outcome : Outcome) : Fields Json :=
  let origin :=
    match event.cors with
    | some policy => [(allowOriginHeader, constant policy.allowOrigin)]
    | none => []
  if outcome = .success then Fields.setAll origin integration.successParameters
  else origin

/-- The template of a response, by content type. -/
def responseTemplates (event : Event) (outcome : Outcome) : Fields Json :=
  optionalProperty "application/json"
    ((event.responseTemplates.bind fun templates =>
      templates.forOutcome? outcome).map Json.str)

def integrationResponse (event : Event) (integration : Integration)
    (kind : ResponseKind) : Json :=
  .obj [
    ("StatusCode", Json.nat kind.status),
    ("SelectionPattern", .str kind.pattern),
    ("ResponseParameters",
      .obj (responseParameters event integration kind.outcome)),
    ("ResponseTemplates", .obj (responseTemplates event kind.outcome))]

def methodResponse (event : Event) (integration : Integration)
    (kind : ResponseKind) : Json :=
  .obj [
    ("StatusCode", Json.nat kind.status),
    ("ResponseParameters",
      .obj (Fields.mapValues (fun _ => .bool true)
        (responseParameters event integration kind.outcome))),
    ("ResponseModels", Json.empty)]

/-- The role under which the service is called: the one that the configuration
brings, or the shared one. -/
def credentials (event : Event) : Json :=
  match event.roleArn with
  | some role => role
  | none => Intrinsic.getAtt (LogicalId.role event.service) "Arn"

/-- The integration block of a method. -/
def integrationBlock (event : Event) (integration : Integration) : Json :=
  let parameters := integration.requestParameters
  .obj (
    [("IntegrationHttpMethod", .str integration.httpMethod),
      ("Type", .str "AWS"), ("Credentials", credentials event),
      ("Uri", integration.uri),
      ("PassthroughBehavior", .str integration.passthrough)]
    ++ optionalProperty "RequestParameters"
      (if parameters.isEmpty then none else some (.obj parameters))
    ++ optionalProperty "RequestTemplates"
      (integration.requestTemplates.map Json.obj)
    ++ [("IntegrationResponses",
      .arr ((responseKinds integration.partialContent).map
        (integrationResponse event integration)))])

/-- The resource of a method, given its integration. -/
def resourceOf (api : Api) (event : Event) (integration : Integration) : Json :=
  .obj [
    ("Type", "AWS::ApiGateway::Method"),
    ("Properties", .obj (
      [("HttpMethod", .str event.verb.upper),
        ("RequestParameters", .obj integration.methodParameters),
        ("AuthorizationType", .str event.authorization.text)]
      ++ optionalProperty "AuthorizerId" event.authorizerId
      ++ optionalProperty "AuthorizationScopes"
        (event.authorizationScopes.map Json.strings)
      ++ [("ApiKeyRequired", .bool event.keyRequired),
        ("ResourceId", api.resourceId event.path),
        ("RestApiId", api.restApiId),
        ("Integration", integrationBlock event integration),
        ("MethodResponses", .arr ((responseKinds integration.partialContent).map
          (methodResponse event integration)))]))]

def resource (api : Api) (event : Event) : Json :=
  resourceOf api event (Integration.ofEvent event)

def id (event : Event) : String := LogicalId.method event.path event.verb

end Method

end GatewayStack
