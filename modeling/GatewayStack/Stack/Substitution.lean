import GatewayStack.Json.Basic

/-!
# Intrinsic functions

References that are resolved at deploy time, and substitutions: a text with
named holes and the values of those holes. A hole without a value is a pseudo
parameter of the deployment, such as its region.

The text of a substitution is kept as a list of pieces. Only `Piece.text`
knows how a hole is written, so nothing a user configures can ever become
part of the text itself.
-/

namespace GatewayStack

namespace Intrinsic

/-- The value that a resource stands for. -/
def ref (id : String) : Json := .obj [("Ref", .str id)]

/-- An attribute of a resource. -/
def getAtt (id attr : String) : Json :=
  .obj [("Fn::GetAtt", .arr [.str id, .str attr])]

/-- Texts and values one after the other. -/
def concat (parts : List Json) : Json :=
  .obj [("Fn::Join", .arr [.str "", .arr parts])]

end Intrinsic

/-- A piece of a text with holes. -/
inductive Piece where
  | plain (text : String)
  | hole (name : String)
  deriving DecidableEq, Repr

namespace Piece

def text : Piece → String
  | .plain text => text
  | .hole name => "$\x7b" ++ name ++ "\x7d"

def partition : Piece := .hole "AWS::Partition"

def region : Piece := .hole "AWS::Region"

def account : Piece := .hole "AWS::AccountId"

end Piece

/-- A text with holes, and the values of the holes that are not pseudo
parameters. -/
structure Substitution where
  pieces : List Piece
  values : Fields Json

namespace Substitution

/-- The text with its holes. -/
def text (substitution : Substitution) : String :=
  String.join (substitution.pieces.map Piece.text)

/-- The intrinsic function; values are given only when there are any. -/
def toJson (substitution : Substitution) : Json :=
  .obj [("Fn::Sub",
    if substitution.values.isEmpty then .str substitution.text
    else .arr [.str substitution.text, .obj substitution.values])]

end Substitution

end GatewayStack
