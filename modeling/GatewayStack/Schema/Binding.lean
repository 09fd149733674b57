import GatewayStack.Proxy.Basic
import GatewayStack.Schema.Section

/-!
# The part of a descriptor that every service has

Path, verb, CORS, authorization, templates and role, read in this order; the
first violation decides. Proxies in front of buckets have no mapping
templates.
-/

namespace GatewayStack.Schema

def bindingFields : List String :=
  ["path", "method", "cors", "authorizationType", "authorizerId",
    "authorizationScopes", "private", "roleArn"]

def templateFields : List String := ["request", "response"]

def corsFields : List String :=
  ["origin", "origins", "methods", "headers", "allowCredentials", "maxAge",
    "cacheControl"]

def hasTemplates (service : Service) : Bool := service != .s3

def readVerb (body : Section) : Except Violation Verb := do
  body.choice "method" Verb.ofString? (Verb.all.map Verb.lower)
    (← body.requiredString "method")

def readCorsSettings (cors : Section) : Except Violation CorsSettings := do
  cors.allowOnly corsFields
  cors.exclusive "origin" "origins"
  let maxAge ← cors.optional .positiveInteger Json.positive? "maxAge"
  let origin ← cors.string? "origin"
  let origins ← cors.stringList? "origins"
  let methods ← cors.stringList? "methods"
  let headers ← cors.stringList? "headers"
  let allowCredentials ← cors.flag "allowCredentials"
  let cacheControl ← cors.string? "cacheControl"
  return {
    origin, origins, methods, headers, allowCredentials, maxAge, cacheControl }

/-- Whether and how requests from other origins are allowed. -/
def readCors (body : Section) : Except Violation (Option CorsChoice) :=
  match body.get? "cors" with
  | none => .ok none
  | some (.bool false) => .ok none
  | some (.bool true) => .ok (some .enabled)
  | some (.obj fields) => do
    let cors ← body.nested "cors" (.obj fields)
    return some (.custom (← readCorsSettings cors))
  | some _ => .error (body.violation "cors" (.typeMismatch .booleanOrMapping))

/-- The settings that say who may call a method. -/
structure Access where
  authorization : Option Authorization
  authorizerId : Option Json
  scopes : Option (List String)

/-- The kind of authorization, when one is configured. -/
def readAuthorization (body : Section) :
    Except Violation (Option Authorization) := do
  match ← body.string? "authorizationType" with
  | none => return none
  | some given =>
    some <$> body.choice "authorizationType" Authorization.ofString?
      (Authorization.all.map Authorization.text) given

/-- Who may call. An authorizer needs the custom kind of authorization, and
scopes need a user pool. -/
def readAccess (body : Section) : Except Violation Access := do
  body.exclusive "authorizerId" "authorizationScopes"
  let authorizerId ← body.intrinsic? "authorizerId"
  let scopes ← body.stringList? "authorizationScopes"
  let authorization ← readAuthorization body
  if authorizerId.isSome ∧ authorization ≠ some .custom then
    throw (body.violation "authorizationType"
      (.conditional "CUSTOM" "authorizerId"))
  if scopes.isSome ∧ authorization ≠ some .cognitoUserPools then
    throw (body.violation "authorizationType"
      (.conditional "COGNITO_USER_POOLS" "authorizationScopes"))
  return { authorization, authorizerId, scopes }

def readRequest (body : Section) : Except Violation (Fields String) :=
  match body.get? "request" with
  | none => .ok []
  | some value => do
    let request ← body.nested "request" value
    request.allowOnly ["template"]
    request.stringMap "template"

def readResponse (body : Section) :
    Except Violation (Option ResponseTemplates) :=
  match body.get? "response" with
  | none => .ok none
  | some value => do
    let response ← body.nested "response" value
    response.allowOnly ["template"]
    match response.get? "template" with
    | none => return some .none
    | some value =>
      let template ← response.nested "template" value
      template.allowOnly ["success", "clientError", "serverError"]
      let success ← template.string? "success"
      let clientError ← template.string? "clientError"
      let serverError ← template.string? "serverError"
      return some { success, clientError, serverError }

/-- Mapping templates of both directions, for the services that have them. -/
def readTemplates (body : Section) :
    Except Violation (Fields String × Option ResponseTemplates) :=
  if hasTemplates body.service then do
    let request ← readRequest body
    let response ← readResponse body
    return (request, response)
  else .ok ([], none)

/-- The part of a descriptor that every service has. -/
def readBinding (body : Section) : Except Violation Binding := do
  let path ← body.requiredString "path"
  let verb ← readVerb body
  let cors ← readCors body
  let access ← readAccess body
  let (requestTemplates, responseTemplates) ← readTemplates body
  let keyRequired ← body.flag "private"
  let roleArn ← body.intrinsic? "roleArn"
  return {
    path, verb, cors
    authorization := access.authorization
    authorizerId := access.authorizerId
    authorizationScopes := access.scopes
    keyRequired, roleArn, requestTemplates, responseTemplates }

end GatewayStack.Schema
