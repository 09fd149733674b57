import GatewayStack.Json.Basic

/-!
# Fragments

What one stage of a compilation produces: resources, outputs, and the ids of
its methods in the order in which they were added. Adding an id again replaces
its value and keeps its position, but a method is tracked every time.
-/

namespace GatewayStack

/-- Resources, outputs and tracked method ids. -/
structure Fragment where
  resources : Fields Json
  outputs : Fields Json
  methodIds : List String
  deriving DecidableEq

namespace Fragment

def empty : Fragment := ⟨[], [], []⟩

def addResource (fragment : Fragment) (id : String)
    (resource : Json) : Fragment :=
  { fragment with resources := Fields.set fragment.resources id resource }

/-- Adds a method, which is a resource whose id is tracked. -/
def addMethod (fragment : Fragment) (id : String)
    (resource : Json) : Fragment :=
  { fragment.addResource id resource with methodIds :=
    fragment.methodIds ++ [id] }

def addOutput (fragment : Fragment) (name : String)
    (output : Json) : Fragment :=
  { fragment with outputs := Fields.set fragment.outputs name output }

def addResources (fragment : Fragment) (resources : List (String × Json)) :
    Fragment :=
  { fragment with resources := Fields.setAll fragment.resources resources }

def addMethods (fragment : Fragment) : List (String × Json) → Fragment
  | [] => fragment
  | (id, resource) :: rest => addMethods (fragment.addMethod id resource) rest

/-- Everything of one fragment and then everything of another. -/
def append (fragment other : Fragment) : Fragment where
  resources := Fields.setAll fragment.resources other.resources
  outputs := Fields.setAll fragment.outputs other.outputs
  methodIds := fragment.methodIds ++ other.methodIds

def isEmpty (fragment : Fragment) : Bool :=
  fragment.resources.isEmpty && fragment.outputs.isEmpty

end Fragment

end GatewayStack
