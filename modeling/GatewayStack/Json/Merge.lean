import GatewayStack.Json.Basic

/-!
# Merging values

A merge is not destructive: two objects are merged field by field, so that a
field the newer one does not mention survives, and any other newer value
replaces the older one.
-/

namespace GatewayStack.Json

mutual

/-- Merges a newer value over an older one. -/
def merge (old new : Json) : Json :=
  match new, old with
  | .obj newer, .obj older => .obj (mergeFields older newer)
  | new, _ => new

/-- Merges the entries of an object, in order, into the fields of another. -/
def mergeFields (older : List (String × Json)) :
    List (String × Json) → List (String × Json)
  | [] => older
  | (name, new) :: rest =>
    let merged :=
      match Fields.get? older name with
      | some old => merge old new
      | none => new
    mergeFields (Fields.set older name merged) rest

end

end GatewayStack.Json
