import GatewayStack.Misconfiguration
import GatewayStack.Stack.Api
import GatewayStack.Template.Fragment

/-!
# Creating the REST API

The stage that creates the API, unless the proxies attach to an existing one.
Its type of endpoint may be spelled in any ASCII case.
-/

namespace GatewayStack

/-- The type that a text spells, in any ASCII case. -/
def EndpointType.ofString? (s : String) : Option EndpointType :=
  EndpointType.all.find? fun type => type.text = Text.asciiUpper s

/-- An optional setting as an optional property. -/
def optionalProperty (name : String) (value : Option Json) :
    List (String × Json) :=
  match value with
  | some value => [(name, value)]
  | none => []

namespace RestApi

/-- The type of endpoint of a deployment target. -/
def endpointType (provider : Provider) : Except Misconfiguration EndpointType :=
  match provider.endpointType with
  | none => .ok .edge
  | some given =>
    match EndpointType.ofString? given with
    | some type => .ok type
    | none => .error (.endpointType given)

def resource (provider : Provider) (type : EndpointType) : Json :=
  let gateway := provider.gateway
  .obj [
    ("Type", "AWS::ApiGateway::RestApi"),
    ("Properties", .obj (
      [("Name", .str provider.restApiName),
        ("EndpointConfiguration", .obj [("Types", Json.strings [type.text])])]
      ++ optionalProperty "BinaryMediaTypes"
        (gateway.binaryMediaTypes.map Json.strings)
      ++ optionalProperty "MinimumCompressionSize"
        (gateway.minimumCompressionSize.map Json.nat)
      ++ optionalProperty "Policy" (gateway.resourcePolicy.map fun statements =>
        .obj [("Version", "2012-10-17"), ("Statement", .arr statements)])))]

def stage (provider : Provider) : Except Misconfiguration Fragment :=
  if provider.usesExistingApi then .ok Fragment.empty
  else (endpointType provider).map fun type =>
    Fragment.empty.addResource LogicalId.restApi (resource provider type)

end RestApi

end GatewayStack
