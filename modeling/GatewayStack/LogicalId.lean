import GatewayStack.Http.Path
import GatewayStack.Http.Verb
import GatewayStack.Proxy.Service

/-!
# Logical ids

The id of every generated resource. An id is a fixed word for its kind, then
what sets it apart: a path, a verb, a number or a token. A path enters as a
fragment of ASCII letters and digits, segment by segment: capitalized, `-`
spelled out, the name between braces followed by `Var`, everything else
dropped.
-/

namespace GatewayStack.LogicalId

/-- Spells out every hyphen. -/
def spellDashes (text : List Char) : List Char :=
  text.flatMap fun c => if c = '-' then ['D', 'a', 's', 'h'] else [c]

/-- Cuts a text at its last occurrence of a character. -/
def cutLast (c : Char) (text : List Char) : Option (List Char × List Char) :=
  match text.reverse.dropWhile (· ≠ c) with
  | [] => none
  | _ :: before =>
    some (before.reverse, (text.reverse.takeWhile (· ≠ c)).reverse)

/-- Takes away the braces around a parameter, from the first opening one to
the last closing one, and marks its end with `Var`. -/
def spellParameter (text : List Char) : List Char :=
  let before := text.takeWhile (· ≠ '\x7b')
  match text.dropWhile (· ≠ '\x7b') with
  | [] => text
  | _ :: inside =>
    match cutLast '\x7d' inside with
    | none => text
    | some (name, after) => before ++ name ++ ['V', 'a', 'r'] ++ after

def segmentChars (segment : List Char) : List Char :=
  Text.upperFirst
    ((spellParameter (spellDashes (Text.capitalize segment))).filter
      Text.isAsciiAlphanumeric)

def segment (text : String) : String := String.ofList (segmentChars text.toList)

/-- The fragment of a path: those of its segments in a row. -/
def pathChars (path : List Char) : List Char :=
  (Path.segments path).flatMap segmentChars

def path (text : String) : String := String.ofList (pathChars text.toList)

/-- A verb with a capital. -/
def verb (v : Verb) : String := String.ofList (Text.upperFirst v.lower.toList)

def restApi : String := "ApiGatewayRestApi"

def usagePlan : String := "ApiGatewayUsagePlan"

def resource (text : String) : String := "ApiGatewayResource" ++ path text

def method (text : String) (v : Verb) : String :=
  "ApiGatewayMethod" ++ path text ++ verb v

/-- The deployment of one build, told apart by the token of the build. -/
def deployment (token : String) : String := "ApiGatewayDeployment" ++ token

/-- An API key, counted from one. -/
def apiKey (n : Nat) : String := "ApiGatewayApiKey" ++ toString n

/-- The binding of an API key to the usage plan, counted from one. -/
def usagePlanKey (n : Nat) : String := "ApiGatewayUsagePlanKey" ++ toString n

/-- The execution role that the methods of a service share. -/
def role : Service → String
  | .kinesis => "ApigatewayToKinesisRole"
  | .sqs => "ApigatewayToSqsRole"
  | .s3 => "ApigatewayToS3Role"
  | .sns => "ApigatewayToSnsRole"
  | .dynamodb => "ApigatewayToDynamodbRole"
  | .eventBridge => "ApigatewayToEventBridgeRole"

def rolePolicy (service : Service) : String := "apigatewayto" ++ service.tag

end GatewayStack.LogicalId
