import GatewayStack.Event
import GatewayStack.StableSort
import GatewayStack.Stack.Api
import GatewayStack.Template.Fragment

/-!
# The tree of paths

Every path that a proxy is bound to, and every path above it, needs a resource
whose parent is the path one segment shorter. The stage lists those paths
without repetition, the ones with fewer slashes first, so that a parent always
comes before its children.
-/

namespace GatewayStack.PathTree

/-- The paths of an event: its own and those above it. The root is none of
them. -/
def eventPaths (event : Event) : List (List Char) :=
  if event.path = "" then [] else Path.prefixes event.path.toList

/-- Every path that needs a resource, parents before children. -/
def paths (events : List Event) : List String :=
  let needed := FirstSeen.distinct (events.flatMap eventPaths)
  (StableSort.sort Path.slashes needed).map String.ofList

def resource (api : Api) (path : String) : Json :=
  .obj [
    ("Type", "AWS::ApiGateway::Resource"),
    ("Properties", .obj [
      ("ParentId", api.resourceId (String.ofList (Path.parent path.toList))),
      ("PathPart", .str (String.ofList (Path.leaf path.toList))),
      ("RestApiId", api.restApiId)])]

/-- The stage that creates the resources of all paths but the existing ones. -/
def stage (api : Api) (events : List Event) : Fragment :=
  let needed := (paths events).filter fun path => !api.isExisting path
  Fragment.empty.addResources (needed.map fun path =>
    (LogicalId.resource path, resource api path))

end GatewayStack.PathTree
