/-!
# Backing services

The six services that a proxy may stand in front of. Each is named by its tag,
the one key of a descriptor.
-/

namespace GatewayStack

inductive Service where
  | kinesis
  | sqs
  | s3
  | sns
  | dynamodb
  | eventBridge
  deriving DecidableEq, Repr

namespace Service

/-- Every service, in the order in which they are compiled and listed. -/
def all : List Service := [.kinesis, .sqs, .s3, .sns, .dynamodb, .eventBridge]

/-- The key that names a service in a descriptor. -/
def tag : Service → String
  | .kinesis => "kinesis"
  | .sqs => "sqs"
  | .s3 => "s3"
  | .sns => "sns"
  | .dynamodb => "dynamodb"
  | .eventBridge => "eventbridge"

def ofTag? (s : String) : Option Service :=
  all.find? fun service => service.tag = s

/-- Every tag, as messages list them. -/
def supportedTags : String := String.intercalate ", " (all.map tag)

end Service

end GatewayStack
