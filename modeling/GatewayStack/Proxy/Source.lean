/-!
# Values taken from a request

Where a value comes from at request time: a path or query string parameter,
the body, or a constant. `expression` is what a mapping template writes to get
hold of it.
-/

namespace GatewayStack

/-- A named parameter of the request URL. -/
inductive UrlParam where
  | path (name : String)
  | query (name : String)
  deriving DecidableEq, Repr

namespace UrlParam

/-- The name of the parameter. -/
def name : UrlParam → String
  | .path name => name
  | .query name => name

/-- The expression that yields the parameter in a mapping template. -/
def expression : UrlParam → String
  | .path name => "$input.params().path." ++ name
  | .query name => "$input.params().querystring." ++ name

/-- The expression that yields the parameter in a request mapping. -/
def mapping : UrlParam → String
  | .path name => "method.request.path." ++ name
  | .query name => "method.request.querystring." ++ name

end UrlParam

/-- Where a value of an integration request comes from. -/
inductive Source where
  /-- A constant, used as it is. -/
  | literal (text : String)
  | url (param : UrlParam)
  /-- A field of the body, by its dotted name. -/
  | body (name : String)
  deriving DecidableEq, Repr

namespace Source

/-- The expression that yields the value in a mapping template. -/
def expression : Source → String
  | .literal text => text
  | .url param => param.expression
  | .body name => "$util.parseJson($input.body)." ++ name

end Source

/-- The key of an object in a bucket. -/
inductive ObjectKey where
  | fixed (key : String)
  | url (param : UrlParam)
  deriving DecidableEq, Repr

/-- One part of a table key: where its value comes from and its attribute
type. The attribute has the name of the parameter. -/
structure TableKey where
  source : UrlParam
  attributeType : String
  deriving DecidableEq, Repr

end GatewayStack
