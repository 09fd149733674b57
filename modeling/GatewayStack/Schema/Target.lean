import GatewayStack.Proxy.Target
import GatewayStack.Schema.Section

/-!
# The part of a descriptor that its service decides

One reader a service, each with the fields it knows.
-/

namespace GatewayStack.Schema

/-- The fields of a service, next to those that every service has. -/
def targetFields : Service → List String
  | .kinesis => ["streamName", "partitionKey", "action"]
  | .sqs => ["queueName", "requestParameters", "acceptParameters"]
  | .s3 => ["action", "bucket", "key", "partialContent", "requestParameters"]
  | .sns => ["topicName"]
  | .dynamodb => ["tableName", "action", "hashKey", "rangeKey", "condition"]
  | .eventBridge => ["eventBusName", "source", "detailType", "detail"]

/-- How a stream is written to; one record a request unless said otherwise. -/
def readStreamAction (body : Section) : Except Violation StreamAction := do
  match ← body.string? "action" with
  | none => return .putRecord
  | some given =>
    body.choice "action" StreamAction.ofString?
      (StreamAction.all.map StreamAction.text) given

def readStream (body : Section) : Except Violation StreamTarget := do
  let stream ← body.resourceName .ref "streamName"
  let partitionKey ← body.source? "partitionKey" true
  let action ← readStreamAction body
  return { stream, partitionKey, action }

def readQueue (body : Section) : Except Violation QueueTarget := do
  let queue ← body.resourceName (.getAtt "QueueName") "queueName"
  let requestParameters ← body.stringMap "requestParameters"
  let acceptParameters ← body.boolMap "acceptParameters"
  return { queue, requestParameters, acceptParameters }

def readObjectKey (body : Section) : Except Violation ObjectKey := do
  match ← body.required "key" with
  | .str key => return .fixed key
  | .obj fields =>
    let (_, param) ← body.oneOf "key" Section.urlParams [] (.obj fields)
    return .url param
  | _ => throw (body.violation "key" (.typeMismatch .objectKey))

def readObject (body : Section) : Except Violation ObjectTarget := do
  let action ← body.choice "action" ObjectAction.ofString?
    (ObjectAction.all.map ObjectAction.text) (← body.requiredString "action")
  let bucket ← body.resourceName .ref "bucket"
  let key ← readObjectKey body
  let partialContent ← body.flag "partialContent"
  let requestParameters ← body.stringMap "requestParameters"
  return { action, bucket, key, partialContent, requestParameters }

def readTopic (body : Section) : Except Violation TopicTarget := do
  let topic ← body.resourceName (.getAtt "TopicName") "topicName"
  return { topic }

/-- An item of a table. Reading and deleting need a hash key, and reading has
no condition. -/
def readItem (body : Section) : Except Violation ItemTarget := do
  let table ← body.resourceName .ref "tableName"
  let action ← body.choice "action" ItemAction.ofString?
    (ItemAction.all.map ItemAction.text) (← body.requiredString "action")
  let hashKey ← body.tableKey? "hashKey"
  if hashKey.isNone ∧ action ≠ .putItem then
    throw (body.violation "hashKey" .missingField)
  let rangeKey ← body.tableKey? "rangeKey"
  let condition ← body.string? "condition"
  if condition.isSome ∧ action = .getItem then
    throw (body.violation "condition" .unknownField)
  return { table, action, hashKey, rangeKey, condition }

def readBus (body : Section) : Except Violation BusTarget := do
  let bus ← body.resourceName .ref "eventBusName"
  let source ← body.source "source" true (← body.required "source")
  let detailType ← body.source? "detailType" true
  let detail ← body.source? "detail" false
  return { bus, source, detailType, detail }

def readTarget (body : Section) : Except Violation Target :=
  match body.service with
  | .kinesis => .kinesis <$> readStream body
  | .sqs => .sqs <$> readQueue body
  | .s3 => .s3 <$> readObject body
  | .sns => .sns <$> readTopic body
  | .dynamodb => .dynamodb <$> readItem body
  | .eventBridge => .eventBridge <$> readBus body

end GatewayStack.Schema
