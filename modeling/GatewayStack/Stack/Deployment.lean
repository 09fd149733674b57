import GatewayStack.Stack.RestApi
import GatewayStack.Template.Basic

/-!
# The deployment

Every method has to exist before the stage is deployed, so the deployment
depends on all of them. When the template has a deployment already, the first
one is extended; otherwise one is created, together with the output that names
the endpoint of the service.
-/

namespace GatewayStack.Deployment

def type : String := "AWS::ApiGateway::Deployment"

/-- What a resource depends on: a list as it is, a single id as a list of one,
and nothing in any other case. -/
def dependencies (resource : Json) : List Json :=
  match resource.field? "DependsOn" with
  | some (.arr ids) => ids
  | some (.str id) => [.str id]
  | _ => []

/-- Further dependencies of an existing deployment. -/
def extension (existing : Json) (methodIds : List String) : Json :=
  .obj [("DependsOn", .arr (dependencies existing ++ methodIds.map Json.str))]

def resource (provider : Provider) (api : Api)
    (methodIds : List String) : Json :=
  .obj [
    ("Type", .str type),
    ("Properties", .obj (
      [("RestApiId", api.restApiId), ("StageName", .str provider.stage)]
      ++ optionalProperty "Description"
        (provider.gateway.description.map Json.str))),
    ("DependsOn", Json.strings methodIds)]

def outputName : String := "ServiceEndpoint"

def output (provider : Provider) (api : Api) : Json :=
  .obj [
    ("Description", "URL of the service endpoint"),
    ("Value", Intrinsic.concat [
      "https://", api.restApiId, ".execute-api.",
      Intrinsic.ref "AWS::Region", ".", Intrinsic.ref "AWS::URLSuffix",
      .str ("/" ++ provider.stage)])]

/-- The stage that wires the methods to the deployment, and the id of that
deployment. -/
def stage (provider : Provider) (api : Api) (template : Template)
    (methodIds : List String) : Fragment × String :=
  match template.findOfType? type with
  | some (id, existing) =>
    (Fragment.empty.addResource id (extension existing methodIds), id)
  | none =>
    let id := LogicalId.deployment provider.token
    ((Fragment.empty.addResource id (resource provider api methodIds)).addOutput
      outputName (output provider api), id)

end GatewayStack.Deployment
