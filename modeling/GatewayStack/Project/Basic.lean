import GatewayStack.Json.Basic

/-!
# Projects

What a project configures for its API, next to the descriptors of its proxies.
`Provider` is that configuration made ready for one build, with the token that
tells the build's deployment apart.
-/

namespace GatewayStack

/-- How many requests a key may make in a period. -/
structure Quota where
  limit : Option Nat
  offset : Option Nat
  period : Option String
  deriving DecidableEq, Repr

/-- Requests a second. A configuration file can say that there is no limit, and
even that the limit is not a number. -/
inductive Rate where
  | finite (x : Binary64)
  | infinite (negative : Bool)
  | nan
  deriving DecidableEq, Repr

namespace Rate

/-- The rate as a number. -/
def finite? : Rate → Option Binary64
  | .finite x => some x
  | .infinite _ => none
  | .nan => none

/-- A rate in a template. JSON has finite numbers only, and no text for the
other rates. -/
def toJson (rate : Rate) : Json :=
  match rate.finite? with
  | some x => .num (.real x)
  | none => .null

end Rate

/-- How fast a key may make requests. -/
structure Throttle where
  burstLimit : Option Nat
  rate : Option Rate
  deriving DecidableEq, Repr

/-- The configured rate, when it is a number. -/
def Throttle.rateLimit (throttle : Throttle) : Option Binary64 :=
  throttle.rate.bind Rate.finite?

structure UsagePlan where
  quota : Option Quota
  throttle : Option Throttle
  deriving DecidableEq, Repr

/-- Settings of the REST API: an existing one to attach to, or what a new one
is created with. -/
structure GatewaySettings where
  /-- An existing API to attach to. -/
  restApiId : Option Json
  /-- The root resource of the existing API. -/
  rootResourceId : Option Json
  /-- Existing resources by path, in the order of the paths. -/
  resources : Fields Json
  binaryMediaTypes : Option (List String)
  minimumCompressionSize : Option Nat
  resourcePolicy : Option (List Json)
  description : Option String
  deriving DecidableEq

def GatewaySettings.empty : GatewaySettings where
  restApiId := none
  rootResourceId := none
  resources := []
  binaryMediaTypes := none
  minimumCompressionSize := none
  resourcePolicy := none
  description := none

/-- Settings of the deployment target. -/
structure ProviderSettings where
  stage : String
  region : String
  apiName : Option String
  endpointType : Option String
  /-- Names of the API keys, checked only when they are compiled. -/
  apiKeys : Option Json
  usagePlan : Option UsagePlan
  gateway : GatewaySettings
  deriving DecidableEq

namespace ProviderSettings

def defaultStage : String := "dev"

def defaultRegion : String := "us-east-1"

def default : ProviderSettings where
  stage := defaultStage
  region := defaultRegion
  apiName := none
  endpointType := none
  apiKeys := none
  usagePlan := none
  gateway := GatewaySettings.empty

end ProviderSettings

/-- A deployment target, ready for one build. -/
structure Provider extends ProviderSettings where
  service : String
  /-- What tells this build's deployment apart. -/
  token : String
  deriving DecidableEq

namespace Provider

/-- A target with every default but the stage. -/
def ofStage (service stage token : String) : Provider :=
  { ProviderSettings.default with stage, service, token }

/-- Name of the REST API: as configured, or stage and service. -/
def restApiName (provider : Provider) : String :=
  match provider.apiName with
  | some name => name
  | none => provider.stage ++ "-" ++ provider.service

/-- Whether the proxies attach to an existing API. -/
def usesExistingApi (provider : Provider) : Bool :=
  provider.gateway.restApiId.isSome

end Provider

/-- A project: its name, its deployment target, and the descriptors of its
proxies as they were written. -/
structure Project where
  service : String
  settings : ProviderSettings
  descriptors : List Json

def Project.provider (project : Project) (token : String) : Provider :=
  { project.settings with service := project.service, token }

end GatewayStack
