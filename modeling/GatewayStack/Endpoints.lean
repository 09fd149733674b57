import GatewayStack.Event

/-!
# Endpoints of a deployed stage

The address of a stage and a line for every event with the address it can be
reached at.
-/

namespace GatewayStack.Endpoints

/-- The address of a deployed stage. -/
def base (restApiId region stage : String) : String :=
  "https://" ++ restApiId ++ ".execute-api." ++ region ++
    ".amazonaws.com/" ++ stage

def dropTrailingSlashes (text : String) : String :=
  String.ofList (text.toList.reverse.dropWhile (· = '/')).reverse

def line (base : String) (event : Event) : String :=
  "\n  " ++ event.verb.upper ++ " - " ++ base ++ "/" ++ event.path

/-- A heading and a line for every event. -/
def report (events : List Event) (endpoint : String) : String :=
  "service proxies:" ++
    String.join (events.map (line (dropTrailingSlashes endpoint)))

end GatewayStack.Endpoints
