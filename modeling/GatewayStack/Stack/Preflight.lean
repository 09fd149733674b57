import GatewayStack.Event
import GatewayStack.Stack.RestApi

/-!
# Preflight methods

A path with a CORS policy gets an `OPTIONS` method that answers by itself,
with the policy in its headers. Header values are constants, which a mapping
writes in single quotes.
-/

namespace GatewayStack

/-- A constant of a parameter mapping. -/
def constant (value : String) : Json := .str ("'" ++ value ++ "'")

def responseHeader (name : String) : String := "method.response.header." ++ name

/-- The header that names the allowed origin. -/
def allowOriginHeader : String := responseHeader "Access-Control-Allow-Origin"

namespace Preflight

def headers (policy : CorsPolicy) : Fields Json :=
  let optionalHeader (name : String) (value : Option String) :=
    optionalProperty (responseHeader name) (value.map constant)
  [(allowOriginHeader, constant policy.allowOrigin),
    (responseHeader "Access-Control-Allow-Headers",
      constant (String.intercalate "," policy.headers)),
    (responseHeader "Access-Control-Allow-Methods",
      constant (String.intercalate "," policy.methods))]
  ++ optionalHeader "Access-Control-Allow-Credentials"
    (if policy.allowCredentials then some "true" else none)
  ++ optionalHeader "Access-Control-Max-Age" (policy.maxAge.map toString)
  ++ optionalHeader "Cache-Control" policy.cacheControl

def resource (api : Api) (path : String) (policy : CorsPolicy) : Json :=
  .obj [
    ("Type", "AWS::ApiGateway::Method"),
    ("Properties", .obj [
      ("AuthorizationType", "NONE"),
      ("HttpMethod", "OPTIONS"),
      ("MethodResponses", .arr [.obj [
        ("StatusCode", "200"),
        ("ResponseParameters",
          .obj (Fields.mapValues (fun _ => .bool true) (headers policy))),
        ("ResponseModels", Json.empty)]]),
      ("RequestParameters", Json.empty),
      ("Integration", .obj [
        ("Type", "MOCK"),
        ("RequestTemplates",
          .obj [("application/json", "\x7bstatusCode:200\x7d")]),
        ("ContentHandling", "CONVERT_TO_TEXT"),
        ("IntegrationResponses", .arr [.obj [
          ("StatusCode", "200"),
          ("ResponseParameters", .obj (headers policy)),
          ("ResponseTemplates", .obj [("application/json", "")])]])]),
      ("ResourceId", api.resourceId path),
      ("RestApiId", api.restApiId)])]

def stage (api : Api) (preflights : Fields CorsPolicy) : Fragment :=
  Fragment.empty.addMethods (preflights.map fun (path, policy) =>
    (LogicalId.method path .options, resource api path policy))

end Preflight

end GatewayStack
