import GatewayStack.Text.Case

/-!
# HTTP verbs

The verbs that a proxy may be bound to. A configuration may spell them in any
ASCII case.
-/

namespace GatewayStack

inductive Verb where
  | get
  | post
  | put
  | patch
  | options
  | head
  | delete
  deriving DecidableEq, Repr

namespace Verb

/-- Every verb, in the order in which messages list them. -/
def all : List Verb := [.get, .post, .put, .patch, .options, .head, .delete]

def lower : Verb → String
  | .get => "get"
  | .post => "post"
  | .put => "put"
  | .patch => "patch"
  | .options => "options"
  | .head => "head"
  | .delete => "delete"

def upper : Verb → String
  | .get => "GET"
  | .post => "POST"
  | .put => "PUT"
  | .patch => "PATCH"
  | .options => "OPTIONS"
  | .head => "HEAD"
  | .delete => "DELETE"

/-- The verb that a text spells, in any ASCII case. -/
def ofString? (s : String) : Option Verb := all.find? fun verb =>
    verb.lower = Text.asciiLower s

end Verb

end GatewayStack
