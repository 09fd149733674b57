import GatewayStack.Proxy.ResourceName
import GatewayStack.Proxy.Service
import GatewayStack.Proxy.Source

/-!
# Targets

What a proxy does with the service behind it: one structure a service, and
`Target` as the choice between them.
-/

namespace GatewayStack

inductive StreamAction where
  /-- One record a request. -/
  | putRecord
  /-- The list of records in the body. -/
  | putRecords
  deriving DecidableEq, Repr

namespace StreamAction

/-- Every action, in the order in which messages list them. -/
def all : List StreamAction := [.putRecord, .putRecords]

def text : StreamAction → String
  | .putRecord => "PutRecord"
  | .putRecords => "PutRecords"

def ofString? (s : String) : Option StreamAction :=
  all.find? fun action => action.text = s

end StreamAction

/-- An operation on an object of a bucket. -/
inductive ObjectAction where
  | getObject
  | putObject
  | deleteObject
  deriving DecidableEq, Repr

namespace ObjectAction

/-- Every action, in the order in which messages list them. -/
def all : List ObjectAction := [.getObject, .putObject, .deleteObject]

def text : ObjectAction → String
  | .getObject => "GetObject"
  | .putObject => "PutObject"
  | .deleteObject => "DeleteObject"

def ofString? (s : String) : Option ObjectAction :=
  all.find? fun action => action.text = s

def httpMethod : ObjectAction → String
  | .getObject => "GET"
  | .putObject => "PUT"
  | .deleteObject => "DELETE"

end ObjectAction

/-- An operation on an item of a table. -/
inductive ItemAction where
  | putItem
  | getItem
  | deleteItem
  deriving DecidableEq, Repr

namespace ItemAction

/-- Every action, in the order in which messages list them. -/
def all : List ItemAction := [.putItem, .getItem, .deleteItem]

def text : ItemAction → String
  | .putItem => "PutItem"
  | .getItem => "GetItem"
  | .deleteItem => "DeleteItem"

def ofString? (s : String) : Option ItemAction :=
  all.find? fun action => action.text = s

end ItemAction

structure StreamTarget where
  stream : ResourceName
  /-- Source of the partition key, when one is configured. -/
  partitionKey : Option Source
  action : StreamAction
  deriving DecidableEq, Repr

structure QueueTarget where
  queue : ResourceName
  /-- Further parameters of the integration request, by name. -/
  requestParameters : List (String × String)
  /-- Parameters that the method accepts, each with whether it is required. -/
  acceptParameters : List (String × Bool)
  deriving DecidableEq, Repr

structure ObjectTarget where
  action : ObjectAction
  bucket : ResourceName
  key : ObjectKey
  /-- Whether ranges are forwarded and partial content is answered. -/
  partialContent : Bool
  /-- Further parameters of the integration request, by name. -/
  requestParameters : List (String × String)
  deriving DecidableEq, Repr

structure TopicTarget where
  topic : ResourceName
  deriving DecidableEq, Repr

/-- An item of a table. -/
structure ItemTarget where
  table : ResourceName
  action : ItemAction
  hashKey : Option TableKey
  rangeKey : Option TableKey
  /-- Condition on a write or a deletion. -/
  condition : Option String
  deriving DecidableEq, Repr

structure BusTarget where
  bus : ResourceName
  source : Source
  detailType : Option Source
  detail : Option Source
  deriving DecidableEq, Repr

/-- The part of a proxy that depends on its service. -/
inductive Target where
  | kinesis (target : StreamTarget)
  | sqs (target : QueueTarget)
  | s3 (target : ObjectTarget)
  | sns (target : TopicTarget)
  | dynamodb (target : ItemTarget)
  | eventBridge (target : BusTarget)
  deriving DecidableEq, Repr

def Target.service : Target → Service
  | .kinesis _ => .kinesis
  | .sqs _ => .sqs
  | .s3 _ => .s3
  | .sns _ => .sns
  | .dynamodb _ => .dynamodb
  | .eventBridge _ => .eventBridge

end GatewayStack
