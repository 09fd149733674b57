/-!
# Method authorization

How a method decides who may call it. Each kind has one exact spelling, both
in configurations and in templates.
-/

namespace GatewayStack

/-- The kind of authorization of a method. -/
inductive Authorization where
  /-- Anyone may call. -/
  | anonymous
  /-- Callers sign their requests. -/
  | awsIam
  /-- A custom authorizer decides. -/
  | custom
  /-- A user pool decides, possibly by scopes. -/
  | cognitoUserPools
  deriving DecidableEq, Repr

namespace Authorization

/-- Every kind, in the order in which messages list them. -/
def all : List Authorization :=
  [.anonymous, .awsIam, .custom, .cognitoUserPools]

def text : Authorization → String
  | .anonymous => "NONE"
  | .awsIam => "AWS_IAM"
  | .custom => "CUSTOM"
  | .cognitoUserPools => "COGNITO_USER_POOLS"

def ofString? (s : String) : Option Authorization :=
  all.find? fun kind => kind.text = s

end Authorization

end GatewayStack
