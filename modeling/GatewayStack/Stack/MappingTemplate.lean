import GatewayStack.Event
import GatewayStack.Stack.Permission

/-!
# Mapping templates

How a request is turned into the request of the service, unless the
configuration brings its own template for the content type. Everything that
comes from the configuration enters through a hole.
-/

namespace GatewayStack

namespace MappingTemplate

def recordPieces : List Piece :=
  [.plain "\x7b\"StreamName\":\"", .hole "StreamName",
    .plain "\",\"Data\":\"", .hole "Data",
    .plain "\",\"PartitionKey\":\"", .hole "PartitionKey", .plain "\"\x7d"]

/-- Every record of a list in the body. -/
def recordsPieces : List Piece :=
  [.plain "\x7b\"StreamName\":\"", .hole "StreamName",
    .plain "\",\"Records\":[#foreach($elem in $input.path('$.records'))",
    .plain
      "\x7b\"Data\":\"$util.base64Encode($elem.data)\",\"PartitionKey\":\"",
    .hole "PartitionKey", .plain "\"\x7d#if($foreach.hasNext),#end#end]\x7d"]

/-- The template of a stream. Without a configured partition key the request
or the record provides one. -/
def stream (target : StreamTarget) : Substitution :=
  let key (otherwise : String) : Json :=
    .str ((target.partitionKey.map Source.expression).getD otherwise)
  match target.action with
  | .putRecord =>
    ⟨recordPieces,
      [("StreamName", target.stream.toJson),
        ("PartitionKey", key "$context.requestId"),
        ("Data", "$util.base64Encode($input.body)")]⟩
  | .putRecords =>
    ⟨recordsPieces,
      [("StreamName", target.stream.toJson),
        ("PartitionKey", key "$elem.partitionKey")]⟩

def topic (target : TopicTarget) : Substitution :=
  ⟨[.plain
      "Action=Publish&Message=$util.urlEncode($input.body)&TopicArn=$util.urlEncode('"]
      ++ Service.sns.arnPieces ++ [.plain "')"],
    [(Service.sns.hole, target.topic.toJson)]⟩

/-- One part of a table key. -/
def keyPieces (side : String) : List Piece :=
  [.plain "\"", .hole (side ++ "Key"), .plain "\": \x7b\"",
    .hole (side ++ "AttributeType"), .plain "\": \"",
    .hole (side ++ "AttributeValue"), .plain "\"\x7d"]

/-- The values for one part of a table key. -/
def keyValues (side : String) (key : TableKey) : Fields Json :=
  [(side ++ "Key", .str key.source.name),
    (side ++ "AttributeType", .str key.attributeType),
    (side ++ "AttributeValue", .str key.source.expression)]

/-- The parts of the key of an item, each with its side. -/
def keyParts (target : ItemTarget) : List (String × TableKey) :=
  (target.hashKey.map fun key => ("Hash", key)).toList
    ++ (target.rangeKey.map fun key => ("Range", key)).toList

def keyListPieces (target : ItemTarget) : List Piece :=
  ((keyParts target).map fun (side, _) => keyPieces side).intersperse
    [.plain ", "] |>.flatten

/-- One field of the body as an attribute of the item. -/
def bodyAttribute : Piece :=
  .plain "\"$key\": \x7b\"S\": \"$item.get($key)\"\x7d"

/-- The attributes of a new item: every field of the body as a string, and the
configured key alongside. -/
def attributePieces (target : ItemTarget) : List Piece :=
  let loop : Piece := .plain "#foreach($key in $item.keySet())"
  if (keyParts target).isEmpty then
    [loop, bodyAttribute, .plain "#if($foreach.hasNext),#end#end"]
  else [loop, bodyAttribute, .plain ",#end"] ++ keyListPieces target

/-- What comes before the condition. -/
def itemPieces (target : ItemTarget) : List Piece :=
  match target.action with
  | .putItem =>
    [.plain "#set($item = $input.path('$'))\x7b\"TableName\": \"",
      .hole "TableName",
      .plain "\", \"Item\": \x7b"] ++ attributePieces target ++ [.plain "\x7d"]
  | .getItem | .deleteItem =>
    [.plain "\x7b\"TableName\": \"", .hole "TableName",
      .plain "\", \"Key\": \x7b"]
      ++ keyListPieces target ++ [.plain "\x7d"]

/-- The condition of a write or a deletion. -/
def conditionPieces (target : ItemTarget) : List Piece :=
  if target.condition.isSome then
    [.plain ", \"ConditionExpression\": \"",
      .hole "ConditionExpression", .plain "\""]
  else []

def item (target : ItemTarget) : Substitution :=
  ⟨itemPieces target ++ conditionPieces target ++ [.plain "\x7d"],
    [("TableName", target.table.toJson)]
      ++ (keyParts target).flatMap (fun (side, key) => keyValues side key)
      ++ (target.condition.map fun condition =>
        ("ConditionExpression", .str condition)).toList⟩

/-- The template of an event bus. Without a configured detail the whole body
is the detail. -/
def bus (target : BusTarget) : Substitution :=
  let detail := (target.detail.map Source.expression).getD "$input.body"
  let detailType := (target.detailType.map Source.expression).getD
    "$context.requestId"
  ⟨[.plain "\x7b\"Entries\":[\x7b\"Detail\": \"", .hole "Detail",
      .plain "\",\"DetailType\": \"", .hole "DetailType",
      .plain "\",\"EventBusName\": \"", .hole "EventBusName",
      .plain "\",\"Source\": \"", .hole "Source", .plain "\"\x7d]\x7d"],
    [("EventBusName", target.bus.toJson),
      ("Detail", .str ("$util.escapeJavaScript(" ++ detail ++ ")")),
      ("DetailType", .str detailType),
      ("Source", .str target.source.expression)]⟩

/-- The same template for plain and for form requests. -/
def bothTypes (substitution : Substitution) : Fields Json :=
  [("application/json", substitution.toJson),
    ("application/x-www-form-urlencoded", substitution.toJson)]

/-- The templates of a target by content type; nothing for a target whose
requests are passed on. -/
def defaults? : Target → Option (Fields Json)
  | .kinesis target => some (bothTypes (stream target))
  | .sqs _ => some [("application/json", "\x7bstatusCode:200\x7d")]
  | .s3 _ => none
  | .sns target => some (bothTypes (topic target))
  | .dynamodb target => some (bothTypes (item target))
  | .eventBridge target => some (bothTypes (bus target))

/-- The templates of an event by content type, those of the configuration on
top. -/
def ofEvent? (event : Event) : Option (Fields Json) :=
  (defaults? event.target).map fun defaults =>
    Fields.setAll defaults (Fields.mapValues Json.str event.requestTemplates)

end MappingTemplate

end GatewayStack
