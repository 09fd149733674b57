import GatewayStack.Http.Verb
import GatewayStack.Proxy.ResourceName
import GatewayStack.Proxy.Service

/-!
# Schema violations

What a descriptor can do wrong, as data, and the sentence that says so. A
violation belongs to a field of a descriptor; a schema error adds the position
of that descriptor in the configured list, and a validation error is one or
more of those.
-/

namespace GatewayStack

/-- A field inside the body of a descriptor, as the names that lead to it. The
descriptor itself has the empty path. -/
abbrev FieldPath := List String

/-- The names with dots between them. -/
def FieldPath.text (path : FieldPath) : String := String.intercalate "." path

/-- The shape that a field has to have. -/
inductive Shape where
  | mapping
  | string
  | boolean
  | positiveInteger
  | stringList
  | stringMap
  | booleanMap
  | booleanOrMapping
  /-- A plain string or any intrinsic function. -/
  | intrinsic
  /-- A resource name in one of the forms its service allows. -/
  | resourceName (form : ReferenceForm)
  /-- The key of an object: a constant or a URL parameter. -/
  | objectKey
  /-- A request value, with or without constants. -/
  | source (constants : Bool)
  deriving DecidableEq, Repr

namespace Shape

def text : Shape → String
  | .mapping => "a mapping"
  | .string => "a string"
  | .boolean => "a boolean"
  | .positiveInteger => "a positive integer"
  | .stringList => "a list of strings"
  | .stringMap => "a mapping of strings to strings"
  | .booleanMap => "a mapping of strings to booleans"
  | .booleanOrMapping => "a boolean or a mapping"
  | .intrinsic => "a string or an intrinsic function mapping"
  | .resourceName .ref => "a string or \x7bRef: <logical id>\x7d"
  | .resourceName (.getAtt attr) =>
    "a string or \x7b'Fn::GetAtt': [<logical id>, '" ++ attr ++ "']\x7d"
  | .objectKey =>
    "a string or a mapping with one of pathParam, queryStringParam"
  | .source true =>
    "a string or a mapping with one of pathParam, queryStringParam, bodyParam"
  | .source false =>
    "a mapping with one of pathParam, queryStringParam, bodyParam"

end Shape

/-- A rule of the schema that is broken. -/
inductive Fault where
  | notAnObject
  | noService
  | unsupportedProxy (tag : String)
  | multipleServices (tags : List String)
  | missingField
  | typeMismatch (expected : Shape)
  | invalidValue (value : String) (allowed : List String)
  | mutuallyExclusive (first second : FieldPath)
  | missingOneOf (names : List String)
  | unknownField
  /-- The field has to have one value because another field is present. -/
  | conditional (expected because : String)
  /-- An earlier descriptor has the same path and verb. -/
  | duplicateRoute (first : Nat) (path : String) (verb : Verb)
  /-- A descriptor binds the verb that a preflight on its path needs. -/
  | preflightConflict (enabledBy : Nat) (path : String)
  deriving DecidableEq, Repr

/-- A broken rule and the field that breaks it. -/
structure Violation where
  /-- The service that the descriptor names, once that is known. -/
  service : Option Service
  path : FieldPath
  fault : Fault
  deriving DecidableEq, Repr

/-- A violation and the position of its descriptor. -/
structure SchemaError where
  index : Nat
  violation : Violation
  deriving DecidableEq, Repr

namespace SchemaError

def quoted (s : String) : String := "\"" ++ s ++ "\""

def quotedList (items : List String) : String :=
  String.intercalate ", " (items.map quoted)

/-- What is wrong, without the descriptor it is wrong with. -/
def detail (error : SchemaError) : String :=
  let field := quoted (FieldPath.text error.violation.path)
  match error.violation.fault with
  | .notAnObject => "must be a mapping with exactly one service key"
  | .noService => "must name one of the supported proxies: " ++
    Service.supportedTags
  | .unsupportedProxy tag =>
    "unsupported proxy " ++ quoted tag ++ "; supported proxies are: " ++
      Service.supportedTags
  | .multipleServices tags =>
    "names " ++ toString tags.length ++ " services (" ++ quotedList tags
      ++ "); exactly one is allowed"
  | .missingField => field ++ " is required"
  | .typeMismatch expected => field ++ " must be " ++ expected.text
  | .invalidValue value allowed =>
    field ++ " must be one of [" ++ quotedList allowed ++
      "], got " ++ quoted value
  | .mutuallyExclusive first second =>
    quoted first.text ++ " and " ++ quoted second.text ++
      " cannot be used together"
  | .missingOneOf names => field ++ " must contain one of " ++ quotedList names
  | .unknownField => field ++ " is not allowed"
  | .conditional expected because =>
    field ++ " must be " ++ quoted expected ++ " when " ++
      quoted because ++ " is set"
  | .duplicateRoute first path verb =>
    verb.upper ++ " /" ++ path ++ " is already bound by service proxy #" ++
      toString first
  | .preflightConflict enabledBy path =>
    if enabledBy = error.index then
      "\"cors\" cannot be enabled on OPTIONS /" ++ path ++
        "; the CORS preflight uses that method"
    else
      "OPTIONS /" ++ path ++
        " conflicts with the CORS preflight enabled by service proxy #"
        ++ toString enabledBy

def message (error : SchemaError) : String :=
  let named :=
    match error.violation.service with
    | some service => " (" ++ quoted service.tag ++ ")"
    | none => ""
  "service proxy #" ++ toString error.index ++ named ++ ": " ++ error.detail

end SchemaError

/-- Everything that is wrong with a list of descriptors, which is at least one
thing. -/
structure ValidationError where
  first : SchemaError
  others : List SchemaError
  deriving DecidableEq, Repr

namespace ValidationError

/-- Every error, in the order of the descriptors. -/
def errors (error : ValidationError) : List SchemaError :=
  error.first :: error.others

def message (error : ValidationError) : String := error.first.message

end ValidationError

end GatewayStack
