import GatewayStack.FirstSeen
import GatewayStack.Proxy.Basic

/-!
# Requests from other origins

The policy that one proxy asks for on its path, and the policy of a path on
which several proxies do. Policies merge in configuration order: lists are
united in first-seen order, single settings follow the last proxy that has
them, and credentials are allowed once anyone allows them.
-/

namespace GatewayStack

/-- What a path tells browsers about requests from other origins. -/
structure CorsPolicy where
  origins : List String
  /-- One explicit origin, which goes before the list. -/
  origin : Option String
  methods : List String
  headers : List String
  allowCredentials : Bool
  maxAge : Option Nat
  cacheControl : Option String
  deriving DecidableEq, Repr

namespace CorsPolicy

/-- The headers that are allowed unless a configuration lists its own. -/
def defaultHeaders : List String :=
  ["Content-Type", "X-Amz-Date", "Authorization", "X-Api-Key",
    "X-Amz-Security-Token", "X-Amz-User-Agent"]

/-- The policy as configured, before any verb is added to it. -/
def ofChoice : CorsChoice → CorsPolicy
  | .enabled =>
    { origins := ["*"]
      origin := some "*"
      methods := ["OPTIONS"]
      headers := defaultHeaders
      allowCredentials := false
      maxAge := none
      cacheControl := none }
  | .custom settings =>
    { origins := settings.origins.getD []
      origin := settings.origin
      methods := settings.methods.getD []
      headers := settings.headers.getD defaultHeaders
      allowCredentials := settings.allowCredentials
      maxAge := settings.maxAge
      cacheControl := settings.cacheControl }

/-- The policy that a proxy with this verb asks for. Preflights and the verb
itself are always allowed. -/
def ofProxy (choice : CorsChoice) (verb : Verb) : CorsPolicy :=
  let policy := ofChoice choice
  { policy with
    methods := FirstSeen.add (FirstSeen.add policy.methods Verb.options.upper)
      verb.upper }

/-- The value of the header that names the allowed origin. -/
def allowOrigin (policy : CorsPolicy) : String :=
  match policy.origin with
  | some origin => origin
  | none => if policy.origins = [] then "*"
    else String.intercalate "," policy.origins

/-- The policy of a path after one more proxy. -/
def merge (earlier later : CorsPolicy) : CorsPolicy where
  origins := FirstSeen.union earlier.origins later.origins
  origin := later.origin.or earlier.origin
  methods := FirstSeen.union earlier.methods later.methods
  headers := FirstSeen.union earlier.headers later.headers
  allowCredentials := earlier.allowCredentials || later.allowCredentials
  maxAge := later.maxAge.or earlier.maxAge
  cacheControl := later.cacheControl.or earlier.cacheControl

end CorsPolicy

end GatewayStack
