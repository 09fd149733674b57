import GatewayStack.LogicalId
import GatewayStack.Project.Basic
import GatewayStack.Stack.Substitution

/-!
# The REST API and its resources

Where the API and the resources of its paths are found: in the same template,
or already in existence when the project says so. A path whose resource is
neither the root nor known to exist is expected in the template, under its
logical id.
-/

namespace GatewayStack

/-- References to the REST API and to the resources of its paths. -/
structure Api where
  restApiId : Json
  rootResourceId : Json
  /-- Existing resources by normalized path. -/
  existing : Fields Json

namespace Api

/-- The references for a deployment target. -/
def ofProvider (provider : Provider) : Api where
  restApiId := provider.gateway.restApiId.getD (Intrinsic.ref LogicalId.restApi)
  rootResourceId :=
    provider.gateway.rootResourceId.getD
      (Intrinsic.getAtt LogicalId.restApi "RootResourceId")
  existing :=
    Fields.ofEntries (provider.gateway.resources.map
      fun (path, id) => (Path.strip path, id))

/-- Whether the resource of a path exists already. -/
def isExisting (api : Api) (path : String) : Bool :=
  Fields.contains api.existing path

/-- The resource of a normalized path; the empty path is the root. -/
def resourceId (api : Api) (path : String) : Json :=
  if path = "" then api.rootResourceId
  else
    match Fields.get? api.existing path with
    | some id => id
    | none => Intrinsic.ref (LogicalId.resource path)

end Api

end GatewayStack
