import GatewayStack.Json.Basic

/-!
# Names of backing resources

The stream, queue, bucket, topic, table or bus behind a proxy is named by a
plain string, or by an intrinsic reference that is resolved at deploy time.
-/

namespace GatewayStack

inductive ResourceName where
  | literal (name : String)
  /-- The value that a resource of the same template stands for. -/
  | ref (logicalId : String)
  /-- An attribute of a resource of the same template. -/
  | getAtt (logicalId attr : String)
  deriving DecidableEq, Repr

namespace ResourceName

/-- The name as it stands in a template. -/
def toJson : ResourceName → Json
  | .literal name => .str name
  | .ref logicalId => .obj [("Ref", .str logicalId)]
  | .getAtt logicalId attr =>
    .obj [("Fn::GetAtt", .arr [.str logicalId, .str attr])]

end ResourceName

/-- Which intrinsic form a service allows for its resource name, next to a
plain string. -/
inductive ReferenceForm where
  | ref
  | getAtt (attr : String)
  deriving DecidableEq, Repr

namespace ReferenceForm

/-- The name that a value of this form gives. -/
def read? : ReferenceForm → Json → Option ResourceName
  | _, .str name => some (.literal name)
  | .ref, .obj [("Ref", .str logicalId)] => some (.ref logicalId)
  | .getAtt attr, .obj [("Fn::GetAtt", .arr [.str logicalId, .str given])] =>
    if given = attr then some (.getAtt logicalId given) else none
  | _, _ => none

end ReferenceForm

end GatewayStack
