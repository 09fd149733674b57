import GatewayStack.FirstSeen
import GatewayStack.LogicalId
import GatewayStack.Proxy.Target
import GatewayStack.Stack.Substitution

/-!
# Permissions

What a method has to be allowed to do: one action on one resource. The role
that the methods of a service share allows just that for all of them, next to
writing its log.

For buckets and tables every pair of action and resource is a statement of its
own. The other services list their actions and their resources in a single
statement.
-/

namespace GatewayStack

namespace Target

def resourceName : Target → ResourceName
  | .kinesis target => target.stream
  | .sqs target => target.queue
  | .s3 target => target.bucket
  | .sns target => target.topic
  | .dynamodb target => target.table
  | .eventBridge target => target.bus

def action : Target → String
  | .kinesis target => "kinesis:" ++ target.action.text
  | .sqs _ => "sqs:SendMessage"
  | .s3 target => "s3:" ++ target.action.text
  | .sns _ => "sns:Publish"
  | .dynamodb target => "dynamodb:" ++ target.action.text
  | .eventBridge _ => "events:PutEvents"

end Target

namespace Service

/-- The hole for the name of a resource in the texts of a service. -/
def hole : Service → String
  | .kinesis => "streamName"
  | .sqs => "queueName"
  | .s3 => "bucket"
  | .sns => "topicName"
  | .dynamodb => "tableName"
  | .eventBridge => "eventBusName"

/-- The resource name of a service's resources, with a hole for its name. -/
def arnPieces (service : Service) : List Piece :=
  let regional (name kind : String) : List Piece :=
    [.plain "arn:", .partition, .plain (":" ++ name ++ ":"), .region,
      .plain ":", .account, .plain (":" ++ kind), .hole service.hole]
  match service with
  | .kinesis => regional "kinesis" "stream/"
  | .sqs => regional "sqs" ""
  | .s3 => [.plain "arn:", .partition, .plain ":s3:::",
    .hole service.hole, .plain "/*"]
  | .sns => regional "sns" ""
  | .dynamodb => regional "dynamodb" "table/"
  | .eventBridge => regional "events" "event-bus/"

def arn (service : Service) (name : ResourceName) : Json :=
  Substitution.toJson ⟨service.arnPieces, [(service.hole, name.toJson)]⟩

end Service

namespace Permission

/-- A statement that allows some actions on some resources. -/
def allow (actions resources : Json) : Json :=
  .obj [("Effect", "Allow"), ("Action", actions), ("Resource", resources)]

/-- The statements that allow what some targets of a service need. -/
def statements (service : Service) (targets : List Target) : List Json :=
  let separate :=
    (FirstSeen.distinct (targets.map fun target =>
      (target.action, target.resourceName))).map
        fun (action, name) => allow (.str action) (service.arn name)
  let together :=
    [allow (Json.strings (FirstSeen.distinct (targets.map Target.action)))
      (.arr ((FirstSeen.distinct (targets.map Target.resourceName)).map
        service.arn))]
  match service with
  | .s3 | .dynamodb => separate
  | .kinesis | .sqs | .sns | .eventBridge => together

/-- The statement that lets a method write its log. -/
def logStatement : Json :=
  allow (Json.strings ["logs:CreateLogGroup", "logs:CreateLogStream",
    "logs:PutLogEvents"]) "*"

/-- The role that the methods of a service share. -/
def role (service : Service) (targets : List Target) : Json :=
  .obj [
    ("Type", "AWS::IAM::Role"),
    ("Properties", .obj [
      ("AssumeRolePolicyDocument", .obj [
        ("Version", "2012-10-17"),
        ("Statement", .arr [.obj [
          ("Effect", "Allow"),
          ("Principal", .obj [("Service", "apigateway.amazonaws.com")]),
          ("Action", "sts:AssumeRole")]])]),
      ("Policies", .arr [.obj [
        ("PolicyName", .str (LogicalId.rolePolicy service)),
        ("PolicyDocument", .obj [
          ("Version", "2012-10-17"),
          ("Statement", .arr (logStatement ::
            statements service targets))])]])])]

end Permission

end GatewayStack
