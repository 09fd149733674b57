import GatewayStack.Json.Basic
import GatewayStack.Proxy.ResourceName
import GatewayStack.Proxy.Service
import GatewayStack.Text.Case

/-!
# The grammar of a descriptor

Which values are descriptors, said without a reader: a mapping with the tag of a
service and, under it, a mapping whose fields have the right shapes, whose names
are among the known ones, and in which the fields that exclude or need one
another do so. Nothing here depends on an order in which fields are looked at.

A field with the value `null` counts as absent for every shape. It does not
count as absent for `Closed`: an unknown name is unknown whatever stands under
it.

The grammar is about one descriptor by itself, and it leaves out one thing that
a list of one descriptor can still do wrong: to claim `OPTIONS` on a path and to
ask for a preflight on the same path (`OwnPreflight`).
-/

namespace GatewayStack.Grammar

/-! ## Fields -/

/-- The field is there, with this value. -/
def Given (fields : Fields Json) (name : String) (value : Json) : Prop :=
  Fields.get? fields name = some value ∧ value ≠ .null

def Present (fields : Fields Json) (name : String) :
    Prop := ∃ value, Given fields name value

/-- The field is there and has the shape. -/
def Required (fields : Fields Json) (name : String)
    (shape : Json → Prop) : Prop :=
  ∃ value, Given fields name value ∧ shape value

/-- The field has the shape when it is there. -/
def Optional (fields : Fields Json) (name : String)
    (shape : Json → Prop) : Prop :=
  ∀ value, Given fields name value → shape value

/-- No name is outside the list. -/
def Closed (fields : Fields Json) (names : List String) : Prop :=
  ∀ name ∈ Fields.keys fields, name ∈ names

def Exclusive (fields : Fields Json) (first second : String) : Prop :=
  ¬ (Present fields first ∧ Present fields second)

/-! ## Shapes -/

def IsText (value : Json) : Prop := ∃ s, value = .str s

def IsTruth (value : Json) : Prop := ∃ b, value = .bool b

def IsTexts (value : Json) : Prop := ∃ items, value = Json.strings items

def IsMapping (shape : Fields Json → Prop) (value : Json) : Prop :=
  ∃ fields, value = .obj fields ∧ shape fields

def IsMapTo (shape : Json → Prop) (value : Json) : Prop :=
  IsMapping (fun fields => ∀ entry ∈ fields, shape entry.2) value

/-- A string, or any intrinsic function. -/
def IsIntrinsic (value : Json) : Prop :=
  IsText value ∨ IsMapping (fun _ => True) value

/-- One of some exact spellings. -/
def Spells (texts : List String) (value : Json) :
    Prop := ∃ s ∈ texts, value = .str s

def verbs : List String :=
  ["get", "post", "put", "patch", "options", "head", "delete"]

/-- A verb, in any ASCII case. -/
def IsVerb (value : Json) : Prop := ∃ s, value = .str s ∧
    Text.asciiLower s ∈ verbs

/-- A positive integer of at most 64 bits. -/
def IsCount (value : Json) : Prop := ∃ n, 0 < n ∧ n < Nat.pow 2 64 ∧
    value = Json.nat n

/-- A plain name, or a reference in the form that the service allows. -/
inductive IsResourceName : ReferenceForm → Json → Prop
  | literal (form : ReferenceForm) (name : String) :
    IsResourceName form (.str name)
  | ref (id : String) : IsResourceName .ref (.obj [("Ref", .str id)])
  | getAtt (attr id : String) :
      IsResourceName (.getAtt attr)
        (.obj [("Fn::GetAtt", .arr [.str id, .str attr])])

/-- Of some fields exactly one is there, and it is a string. -/
def ExactlyOne (fields : Fields Json) (names : List String) : Prop :=
  ∃ name ∈ names, Required fields name IsText ∧
    ∀ other ∈ names, Present fields other → other = name

/-- A mapping with one of some strings, and possibly with further fields. -/
def IsChoice (names further : List String) (value : Json) : Prop :=
  IsMapping (fun fields => Closed fields (names ++ further) ∧
    ExactlyOne fields names) value

def urlParams : List String := ["pathParam", "queryStringParam"]

def requestParts : List String := ["pathParam", "queryStringParam", "bodyParam"]

/-- A value taken from the request, or a constant. -/
def IsSource (value : Json) : Prop :=
  IsText value ∨ IsChoice requestParts [] value

def IsObjectKey (value : Json) : Prop :=
  IsText value ∨ IsChoice urlParams [] value

def IsTableKey (value : Json) : Prop :=
  IsMapping (fun fields => Closed fields (urlParams ++ ["attributeType"]) ∧
    ExactlyOne fields urlParams ∧ Required fields "attributeType" IsText) value

/-! ## The body of a descriptor -/

/-- Explicit CORS settings. -/
structure CorsSettings (fields : Fields Json) : Prop where
  closed : Closed fields
    ["origin", "origins", "methods", "headers", "allowCredentials", "maxAge",
      "cacheControl"]
  exclusive : Exclusive fields "origin" "origins"
  origin : Optional fields "origin" IsText
  origins : Optional fields "origins" IsTexts
  methods : Optional fields "methods" IsTexts
  headers : Optional fields "headers" IsTexts
  allowCredentials : Optional fields "allowCredentials" IsTruth
  maxAge : Optional fields "maxAge" IsCount
  cacheControl : Optional fields "cacheControl" IsText

def IsCors (value : Json) : Prop := IsTruth value ∨ IsMapping CorsSettings value

/-- Who may call. -/
structure Access (fields : Fields Json) : Prop where
  exclusive : Exclusive fields "authorizerId" "authorizationScopes"
  authorizerId : Optional fields "authorizerId" IsIntrinsic
  scopes : Optional fields "authorizationScopes" IsTexts
  authorizationType : Optional fields "authorizationType"
    (Spells ["NONE", "AWS_IAM", "CUSTOM", "COGNITO_USER_POOLS"])
  custom : Present fields "authorizerId" →
    Given fields "authorizationType" (.str "CUSTOM")
  userPools : Present fields "authorizationScopes" →
    Given fields "authorizationType" (.str "COGNITO_USER_POOLS")

/-- The mapping templates of both directions. -/
structure Templates (fields : Fields Json) : Prop where
  request : Optional fields "request" (IsMapping fun request =>
    Closed request ["template"] ∧ Optional request "template" (IsMapTo IsText))
  response : Optional fields "response" (IsMapping fun response =>
    Closed response ["template"] ∧
      Optional response "template" (IsMapping fun template =>
      Closed template ["success", "clientError", "serverError"] ∧
        Optional template "success" IsText ∧
        Optional template "clientError" IsText ∧
        Optional template "serverError" IsText))

/-- The fields that every service has. -/
structure Common (fields : Fields Json) : Prop where
  path : Required fields "path" IsText
  method : Required fields "method" IsVerb
  cors : Optional fields "cors" IsCors
  access : Access fields
  keyRequired : Optional fields "private" IsTruth
  roleArn : Optional fields "roleArn" IsIntrinsic

structure Stream (fields : Fields Json) : Prop where
  streamName : Required fields "streamName" (IsResourceName .ref)
  partitionKey : Optional fields "partitionKey" IsSource
  action : Optional fields "action" (Spells ["PutRecord", "PutRecords"])

structure Queue (fields : Fields Json) : Prop where
  queueName : Required fields "queueName" (IsResourceName (.getAtt "QueueName"))
  requestParameters : Optional fields "requestParameters" (IsMapTo IsText)
  acceptParameters : Optional fields "acceptParameters" (IsMapTo IsTruth)

structure Bucket (fields : Fields Json) : Prop where
  action : Required fields "action"
    (Spells ["GetObject", "PutObject", "DeleteObject"])
  bucket : Required fields "bucket" (IsResourceName .ref)
  key : Required fields "key" IsObjectKey
  partialContent : Optional fields "partialContent" IsTruth
  requestParameters : Optional fields "requestParameters" (IsMapTo IsText)

structure Topic (fields : Fields Json) : Prop where
  topicName : Required fields "topicName" (IsResourceName (.getAtt "TopicName"))

/-- An item of a table. Only a write does without a hash key, and a read has no
condition. -/
structure Item (fields : Fields Json) : Prop where
  tableName : Required fields "tableName" (IsResourceName .ref)
  action : Required fields "action"
    (Spells ["PutItem", "GetItem", "DeleteItem"])
  hashKey : Optional fields "hashKey" IsTableKey
  hashKeyNeeded : Present fields "hashKey" ∨
    Given fields "action" (.str "PutItem")
  rangeKey : Optional fields "rangeKey" IsTableKey
  condition : Optional fields "condition" IsText
  unconditional : Present fields "condition" →
    ¬ Given fields "action" (.str "GetItem")

/-- An event bus. The detail is never a constant. -/
structure Bus (fields : Fields Json) : Prop where
  eventBusName : Required fields "eventBusName" (IsResourceName .ref)
  source : Required fields "source" IsSource
  detailType : Optional fields "detailType" IsSource
  detail : Optional fields "detail" (IsChoice requestParts [])

/-- The fields that a service decides. -/
def Target : Service → Fields Json → Prop
  | .kinesis => Stream
  | .sqs => Queue
  | .s3 => Bucket
  | .sns => Topic
  | .dynamodb => Item
  | .eventBridge => Bus

def commonNames : List String :=
  ["path", "method", "cors", "authorizationType", "authorizerId",
    "authorizationScopes", "private", "roleArn"]

def targetNames : Service → List String
  | .kinesis => ["streamName", "partitionKey", "action"]
  | .sqs => ["queueName", "requestParameters", "acceptParameters"]
  | .s3 => ["action", "bucket", "key", "partialContent", "requestParameters"]
  | .sns => ["topicName"]
  | .dynamodb => ["tableName", "action", "hashKey", "rangeKey", "condition"]
  | .eventBridge => ["eventBusName", "source", "detailType", "detail"]

/-- Only a bucket has no mapping templates. -/
def templateNames : Service → List String
  | .s3 => []
  | _ => ["request", "response"]

/-- What stands under the tag of a service. -/
structure Body (service : Service) (fields : Fields Json) : Prop where
  closed : Closed fields (commonNames ++ targetNames service ++
    templateNames service)
  common : Common fields
  templates : service ≠ .s3 → Templates fields
  target : Target service fields

/-- The body asks for a preflight on its path and claims its verb. -/
def OwnPreflight (fields : Fields Json) : Prop :=
  Required fields "method" (fun value => ∃ s, value = .str s ∧
    Text.asciiLower s = "options") ∧
    ∃ cors, Given fields "cors" cors ∧ cors ≠ .bool false

end GatewayStack.Grammar
