import GatewayStack.Stack.Method
import GatewayStack.Template.Fragment

/-!
# The resources of one service

The stage of a service creates one method an event, and before them the role
that those events share which bring no role of their own.
-/

namespace GatewayStack.Backend

/-- The targets of the events that need the shared role. -/
def sharedTargets (events : List Event) : List Target :=
  (events.filter fun event => event.roleArn.isNone).map Event.target

/-- The shared role of a service, when some event needs it. -/
def roleFragment (service : Service) (events : List Event) : Fragment :=
  match sharedTargets events with
  | [] => Fragment.empty
  | targets =>
    Fragment.empty.addResource (LogicalId.role service)
      (Permission.role service targets)

def methodFragment (api : Api) (events : List Event) : Fragment :=
  Fragment.empty.addMethods (events.map fun event =>
    (Method.id event, Method.resource api event))

def stage (api : Api) (normalized : Normalized)
    (service : Service) : Fragment :=
  let events := normalized.eventsFor service
  (roleFragment service events).append (methodFragment api events)

end GatewayStack.Backend
