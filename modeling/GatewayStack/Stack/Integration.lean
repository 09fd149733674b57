import GatewayStack.Stack.MappingTemplate
import GatewayStack.Stack.Preflight

/-!
# Integrations

The half of a method that faces the service: where the request goes, what is
mapped into it, and what the response brings back. Buckets are reached by
path, every other service by naming an action.

A parameter that reads a value of the method's own request has to be declared
on the method.
-/

namespace GatewayStack

structure Integration where
  httpMethod : String
  uri : Json
  passthrough : String
  requestParameters : Fields Json
  requestTemplates : Option (Fields Json)
  methodParameters : Fields Json
  /-- Headers that a successful response passes on. -/
  successParameters : Fields Json
  /-- Whether partial content is answered. -/
  partialContent : Bool

namespace Integration

/-- The address of an integration. -/
def address (pieces : List Piece) (values : Fields Json) : Json :=
  Substitution.toJson
    ⟨[.plain "arn:", .partition, .plain ":apigateway:", .region, .plain ":"] ++
      pieces, values⟩

/-- An integration that names an action. -/
def named (uri : Json) (event : Event) : Integration where
  httpMethod := "POST"
  uri := uri
  passthrough := "NEVER"
  requestParameters := []
  requestTemplates := MappingTemplate.ofEvent? event
  methodParameters := []
  successParameters := []
  partialContent := false

/-- A parameter of the integration request. -/
def requestParameter (place name : String) : String :=
  "integration.request." ++ place ++ "." ++ name

/-- Configured parameters on top of generated ones. -/
def withConfigured (generated : Fields Json)
    (configured : List (String × String)) : Fields Json :=
  Fields.setAll generated (Fields.mapValues Json.str configured)

def stream (event : Event) (target : StreamTarget) : Integration :=
  named (address [.plain ("kinesis:action/" ++ target.action.text)] []) event

def queue (event : Event) (target : QueueTarget) : Integration :=
  let uri := address
    [.plain "sqs:path//", .account, .plain "/", .hole Service.sqs.hole]
    [(Service.sqs.hole, target.queue.toJson)]
  { named uri event with
    requestParameters :=
      withConfigured
        [(requestParameter "querystring" "Action", constant "SendMessage"),
          (requestParameter "querystring" "MessageBody", "method.request.body")]
        target.requestParameters
    methodParameters := Fields.mapValues Json.bool target.acceptParameters }

def topic (event : Event) : Integration :=
  { named (address [.plain "sns:path//"] []) event with
    requestParameters :=
      [(requestParameter "header" "Content-Type",
        constant "application/x-www-form-urlencoded")] }

def item (event : Event) (target : ItemTarget) : Integration :=
  named (address [.plain ("dynamodb:action/" ++ target.action.text)] []) event

def bus (event : Event) : Integration :=
  { named (address [.plain "events:action/PutEvents"] []) event with
    requestParameters :=
      [(requestParameter "header" "X-Amz-Target",
        constant "AWSEvents.PutEvents"),
        (requestParameter "header" "Content-Type",
          constant "application/x-amz-json-1.1")] }

/-- The parameters of a request to a bucket. -/
def objectParameters (target : ObjectTarget) : Fields Json :=
  let bucket := Substitution.toJson
    ⟨[.plain "'", .hole Service.s3.hole, .plain "'"],
      [(Service.s3.hole, target.bucket.toJson)]⟩
  let key :=
    match target.key with
    | .fixed key => constant key
    | .url param => .str param.mapping
  let range : Fields Json :=
    if target.partialContent then
      [(requestParameter "header" "Range", "method.request.header.Range")]
    else []
  withConfigured
    ([(requestParameter "path" "bucket", bucket),
      (requestParameter "path" "object", key)] ++ range)
    target.requestParameters

/-- The values of the method's request that some parameters read. -/
def readParameters (parameters : Fields Json) : Fields Json :=
  let sources := (Fields.values parameters).filterMap Json.string?
  Fields.ofEntries
    ((sources.filter fun source =>
      "method.".toList.isPrefixOf source.toList).map fun source =>
      (source, .bool true))

/-- The headers of an object that a successful response passes on. -/
def objectHeaders : ObjectAction → List String
  | .getObject | .putObject => ["Content-Type", "Content-Length"]
  | .deleteObject => ["Content-Type", "Date"]

def object (target : ObjectTarget) : Integration :=
  let parameters := objectParameters target
  { httpMethod := target.action.httpMethod
    uri := address [.plain "s3:path/\x7bbucket\x7d/\x7bobject\x7d"] []
    passthrough := "WHEN_NO_MATCH"
    requestParameters := parameters
    requestTemplates := none
    methodParameters := readParameters parameters
    successParameters := (objectHeaders target.action).map fun header =>
      (responseHeader header, .str ("integration.response.header." ++ header))
    partialContent := target.partialContent }

def ofEvent (event : Event) : Integration :=
  match event.target with
  | .kinesis target => stream event target
  | .sqs target => queue event target
  | .s3 target => object target
  | .sns _ => topic event
  | .dynamodb target => item event target
  | .eventBridge _ => bus event

end Integration

end GatewayStack
