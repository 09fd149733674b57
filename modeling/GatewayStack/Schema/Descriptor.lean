import GatewayStack.Schema.Binding
import GatewayStack.Schema.Target

/-!
# Reading one descriptor

A descriptor is a mapping with one key, the tag of its service, and that key
holds the body. The body has a closed shape: once everything known has been
read, any other name is refused.
-/

namespace GatewayStack.Schema

/-- A violation by the descriptor as a whole. -/
def topLevel (fault : Fault) : Violation := ⟨none, [], fault⟩

/-- Every name that may occur in the body of a service. -/
def bodyFields (service : Service) : List String :=
  bindingFields ++ targetFields service ++
    (if hasTemplates service then templateFields else [])

def readBody (body : Section) : Except Violation ServiceProxy := do
  let http ← readBinding body
  let target ← readTarget body
  body.allowOnly (bodyFields body.service)
  return { http, target }

/-- The proxy that a descriptor describes. Of several keys the first that
names no service is reported, or else all of them. -/
def readDescriptor : Json → Except Violation ServiceProxy
  | .obj [] => .error (topLevel .noService)
  | .obj [(tag, body)] =>
    match Service.ofTag? tag with
    | none => .error (topLevel (.unsupportedProxy tag))
    | some service =>
      match body with
      | .obj fields => readBody ⟨service, [], fields⟩
      | _ => .error ⟨some service, [tag], .typeMismatch .mapping⟩
  | .obj fields =>
    match (Fields.keys fields).find? fun tag => (Service.ofTag? tag).isNone with
    | some unknown => .error (topLevel (.unsupportedProxy unknown))
    | none => .error (topLevel (.multipleServices (Fields.keys fields)))
  | _ => .error (topLevel .notAnObject)

end GatewayStack.Schema
