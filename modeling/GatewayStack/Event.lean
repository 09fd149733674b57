import GatewayStack.Cors

/-!
# Events

An event is a proxy with its settings resolved: the path without its outer
slashes, a kind of authorization in every case, and the CORS policy that the
proxy itself asks for. There is one event a proxy, in configuration order.

The preflight map beside them has one merged policy for every path on which
some proxy asks for one, in the order of the paths.
-/

namespace GatewayStack

/-- A proxy with its settings resolved. -/
structure Event where
  path : String
  verb : Verb
  authorization : Authorization
  authorizerId : Option Json
  authorizationScopes : Option (List String)
  /-- The policy of this proxy alone. -/
  cors : Option CorsPolicy
  keyRequired : Bool
  roleArn : Option Json
  requestTemplates : List (String × String)
  responseTemplates : Option ResponseTemplates
  target : Target
  deriving DecidableEq, Repr

namespace Event

def service (event : Event) : Service := event.target.service

def ofProxy (proxy : ServiceProxy) : Event where
  path := proxy.path
  verb := proxy.http.verb
  authorization := proxy.http.authorization.getD .anonymous
  authorizerId := proxy.http.authorizerId
  authorizationScopes := proxy.http.authorizationScopes
  cors := proxy.http.cors.map fun choice =>
    CorsPolicy.ofProxy choice proxy.http.verb
  keyRequired := proxy.http.keyRequired
  roleArn := proxy.http.roleArn
  requestTemplates := proxy.http.requestTemplates
  responseTemplates := proxy.http.responseTemplates
  target := proxy.target

end Event

/-- The events of a configuration and the policies of its paths. -/
structure Normalized where
  events : List Event
  preflights : Fields CorsPolicy

namespace Normalized

/-- The policies of the paths after one more event. -/
def addPreflight (preflights : Fields CorsPolicy) (event : Event) :
    Fields CorsPolicy :=
  match event.cors with
  | none => preflights
  | some policy =>
    let merged :=
      match Fields.get? preflights event.path with
      | some earlier => earlier.merge policy
      | none => policy
    Fields.insertSorted preflights event.path merged

def ofProxies (proxies : List ServiceProxy) : Normalized :=
  let events := proxies.map Event.ofProxy
  { events, preflights := events.foldl addPreflight [] }

/-- The events of one service, in configuration order. -/
def eventsFor (normalized : Normalized) (service : Service) : List Event :=
  normalized.events.filter fun event => event.service = service

end Normalized

end GatewayStack
