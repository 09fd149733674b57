import GatewayStack.Http.Authorization
import GatewayStack.Http.Path
import GatewayStack.Http.Verb
import GatewayStack.Proxy.Target

/-!
# Service proxies

A proxy binds a path and a verb to a target. This is what a descriptor means
once it has passed the schema, with its settings as they were configured.
-/

namespace GatewayStack

structure CorsSettings where
  origin : Option String
  origins : Option (List String)
  methods : Option (List String)
  headers : Option (List String)
  allowCredentials : Bool
  maxAge : Option Nat
  cacheControl : Option String
  deriving DecidableEq, Repr

/-- How a descriptor asks for requests from other origins to be allowed. -/
inductive CorsChoice where
  /-- Allowed with every default. -/
  | enabled
  | custom (settings : CorsSettings)
  deriving DecidableEq, Repr

/-- Mapping templates of the responses, by outcome. -/
structure ResponseTemplates where
  success : Option String
  clientError : Option String
  serverError : Option String
  deriving DecidableEq, Repr

def ResponseTemplates.none : ResponseTemplates := ⟨.none, .none, .none⟩

/-- The part of a proxy that every service has. -/
structure Binding where
  /-- The path as configured. -/
  path : String
  verb : Verb
  cors : Option CorsChoice
  authorization : Option Authorization
  authorizerId : Option Json
  authorizationScopes : Option (List String)
  /-- Whether callers need an API key. -/
  keyRequired : Bool
  /-- The execution role, when the configuration brings its own. -/
  roleArn : Option Json
  /-- Mapping templates of the request, by content type. -/
  requestTemplates : List (String × String)
  responseTemplates : Option ResponseTemplates
  deriving DecidableEq, Repr

/-- A proxy in front of a service. -/
structure ServiceProxy where
  http : Binding
  target : Target
  deriving DecidableEq, Repr

namespace ServiceProxy

def service (proxy : ServiceProxy) : Service := proxy.target.service

def path (proxy : ServiceProxy) : String := Path.strip proxy.http.path

end ServiceProxy

end GatewayStack
