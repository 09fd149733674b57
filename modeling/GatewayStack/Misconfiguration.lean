/-!
# Misconfigurations

What can be wrong with the settings around the descriptors, or with a template
that is to be extended.
-/

namespace GatewayStack

/-- Where a REST API can be reached. -/
inductive EndpointType where
  | edge
  | regional
  | internal
  deriving DecidableEq, Repr

namespace EndpointType

/-- Every type, in the order in which messages list them. -/
def all : List EndpointType := [.edge, .regional, .internal]

def text : EndpointType → String
  | .edge => "EDGE"
  | .regional => "REGIONAL"
  | .internal => "PRIVATE"

end EndpointType

/-- A setting that cannot be used. -/
inductive Misconfiguration where
  | templateNotMapping
  | sectionNotMapping (name : String)
  | endpointType (given : String)
  | apiKeysNotList
  | apiKeyNotString
  deriving DecidableEq, Repr

def Misconfiguration.message : Misconfiguration → String
  | .templateNotMapping => "template document must be a mapping"
  | .sectionNotMapping name => "template " ++ name ++ " must be a mapping"
  | .endpointType given =>
    "endpointType must be one of "
      ++ String.intercalate ", " (EndpointType.all.map EndpointType.text)
      ++ ", got \"" ++ given ++ "\""
  | .apiKeysNotList => "apiKeys property must be an array"
  | .apiKeyNotString => "API Keys must be strings"

end GatewayStack
