import GatewayStack.Json.Basic
import GatewayStack.Proxy.Source
import GatewayStack.Schema.Violation

/-!
# Reading the fields of a mapping

A section is a mapping under validation together with where it stands, so that
every reader below can name the field that is wrong. A field with the value
`null` counts as absent everywhere but in the check for unknown names.
-/

namespace GatewayStack

namespace Json

/-- Every item read the same way, when all of them can be. -/
def readItems {α : Type} (read : Json → Option α) : List Json → Option (List α)
  | [] => some []
  | item :: rest =>
    match read item with
    | none => none
    | some a => (readItems read rest).map (a :: ·)

/-- Every field read the same way, when all of them can be. -/
def readFields {α : Type} (read : Json → Option α) :
    List (String × Json) → Option (List (String × α))
  | [] => some []
  | (name, value) :: rest =>
    match read value with
    | none => none
    | some a => (readFields read rest).map ((name, a) :: ·)

def stringList? (value : Json) : Option (List String) :=
  value.items?.bind (readItems string?)

/-- A mapping to strings, in the order of its names. -/
def stringMap? (value : Json) : Option (Fields String) :=
  (value.fields?.bind (readFields string?)).map Fields.sorted

/-- A mapping to booleans, in the order of its names. -/
def boolMap? (value : Json) : Option (Fields Bool) :=
  (value.fields?.bind (readFields bool?)).map Fields.sorted

/-- A positive integer of at most 64 bits. -/
def positive? : Json → Option Nat
  | .num n => n.natural?.filter (0 < ·)
  | _ => none

/-- A string or an object, unchanged. -/
def intrinsic? : Json → Option Json
  | .str s => some (.str s)
  | .obj fields => some (.obj fields)
  | _ => none

end Json

/-- A mapping under validation. -/
structure Section where
  /-- The service of the descriptor that the mapping belongs to. -/
  service : Service
  /-- Where the mapping stands inside the body. -/
  path : FieldPath
  fields : List (String × Json)

namespace Section

variable {α : Type}

def fieldPath (s : Section) (name : String) : FieldPath := s.path ++ [name]

def violation (s : Section) (name : String) (fault : Fault) : Violation :=
  ⟨some s.service, s.fieldPath name, fault⟩

/-- The value of a field that is present and not `null`. -/
def get? (s : Section) (name : String) : Option Json :=
  (Fields.get? s.fields name).filter fun value => !value.isNull

/-- Whether a field is present and not `null`. -/
def has (s : Section) (name : String) : Bool := (s.get? name).isSome

/-- The value of a field that has to be there. -/
def required (s : Section) (name : String) : Except Violation Json :=
  match s.get? name with
  | some value => .ok value
  | none => .error (s.violation name .missingField)

/-- Reads a value at a field, or says which shape it should have had. -/
def read (s : Section) (shape : Shape) (reader : Json → Option α)
    (name : String) (value : Json) : Except Violation α :=
  match reader value with
  | some a => .ok a
  | none => .error (s.violation name (.typeMismatch shape))

/-- Reads a field that may be absent. -/
def optional (s : Section) (shape : Shape) (reader : Json → Option α)
    (name : String) :
    Except Violation (Option α) :=
  match s.get? name with
  | none => .ok none
  | some value => (s.read shape reader name value).map some

def requiredString (s : Section) (name : String) : Except Violation String := do
  s.read .string Json.string? name (← s.required name)

def string? (s : Section) (name : String) : Except Violation (Option String) :=
  s.optional .string Json.string? name

/-- A boolean, false when absent. -/
def flag (s : Section) (name : String) : Except Violation Bool :=
  (s.optional .boolean Json.bool? name).map (·.getD false)

def intrinsic? (s : Section) (name : String) : Except Violation (Option Json) :=
  s.optional .intrinsic Json.intrinsic? name

def stringList? (s : Section) (name : String) :
    Except Violation (Option (List String)) :=
  s.optional .stringList Json.stringList? name

/-- A mapping to strings, empty when absent. -/
def stringMap (s : Section) (name : String) :
    Except Violation (Fields String) :=
  (s.optional .stringMap Json.stringMap? name).map (·.getD [])

/-- A mapping to booleans, empty when absent. -/
def boolMap (s : Section) (name : String) : Except Violation (Fields Bool) :=
  (s.optional .booleanMap Json.boolMap? name).map (·.getD [])

/-- The mapping at a field, as a section of its own. -/
def nested (s : Section) (name : String) (value : Json) :
    Except Violation Section :=
  (s.read .mapping Json.fields? name value).map fun fields =>
    ⟨s.service, s.fieldPath name, fields⟩

/-- The value that a text spells, out of a few. -/
def choice (s : Section) (name : String) (ofString? : String → Option α)
    (allowed : List String) (given : String) : Except Violation α :=
  match ofString? given with
  | some a => .ok a
  | none => .error (s.violation name (.invalidValue given allowed))

/-- Two fields that exclude each other, reported at the mapping itself. -/
def clash (s : Section) (first second : String) : Violation :=
  ⟨some s.service, s.path, .mutuallyExclusive (s.fieldPath first)
    (s.fieldPath second)⟩

/-- Refuses a mapping in which both of two fields are present. -/
def exclusive (s : Section) (first second : String) : Except Violation Unit :=
  if s.has first && s.has second then .error (s.clash first second) else .ok ()

/-- Refuses the first name outside a list. -/
def allowOnly (s : Section) (names : List String) : Except Violation Unit :=
  match (Fields.keys s.fields).find? fun name => !names.contains name with
  | some name => .error (s.violation name .unknownField)
  | none => .ok ()

/-- The name of a backing resource, which has to be there. -/
def resourceName (s : Section) (form : ReferenceForm) (name : String) :
    Except Violation ResourceName := do
  s.read (.resourceName form) form.read? name (← s.required name)

/-- Reads a mapping that has exactly one of several alternatives, each with
what its text stands for, and possibly some further fields. -/
def oneOf (s : Section) (name : String)
    (alternatives : List (String × (String → α))) (further : List String)
    (value : Json) : Except Violation (Section × α) := do
  let inner ← s.nested name value
  inner.allowOnly (alternatives.map Prod.fst ++ further)
  match alternatives.filter fun alternative => inner.has alternative.1 with
  | [] => throw (s.violation name (.missingOneOf (alternatives.map Prod.fst)))
  | [(key, build)] => return (inner, build (← inner.requiredString key))
  | (first, _) :: (second, _) :: _ =>
    inner.exclusive first second
    -- both are there, so it does not come to this
    throw (s.violation name .unknownField)

/-- The ways to name a URL parameter. -/
def urlParams : List (String × (String → UrlParam)) :=
  [("pathParam", .path), ("queryStringParam", .query)]

/-- The ways to name a part of a request. -/
def requestParts : List (String × (String → Source)) :=
  [("pathParam", fun name => .url (.path name)),
    ("queryStringParam", fun name => .url (.query name)), ("bodyParam", .body)]

/-- Where a request value comes from; a plain string is a constant, where
constants are allowed. -/
def source (s : Section) (name : String) (constants : Bool) (value : Json) :
    Except Violation Source :=
  match value, constants with
  | .str text, true => .ok (.literal text)
  | .obj _, _ => (s.oneOf name requestParts [] value).map Prod.snd
  | _, _ => .error (s.violation name (.typeMismatch (.source constants)))

/-- Where a request value comes from, when the field is present. -/
def source? (s : Section) (name : String) (constants : Bool) :
    Except Violation (Option Source) :=
  match s.get? name with
  | none => .ok none
  | some value => (s.source name constants value).map some

/-- One part of a table key, when the field is present. -/
def tableKey? (s : Section) (name : String) :
    Except Violation (Option TableKey) :=
  match s.get? name with
  | none => .ok none
  | some value => do
    let (inner, param) ← s.oneOf name urlParams ["attributeType"] value
    return some ⟨param, ← inner.requiredString "attributeType"⟩

end Section

end GatewayStack
