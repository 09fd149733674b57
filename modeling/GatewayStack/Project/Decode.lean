import GatewayStack.Project.Basic
import GatewayStack.Project.Document

/-!
# Reading a project

The document and its sections are mappings; names that mean nothing here are
ignored. A field that may be missing may also be `null`. A string may be
written as any scalar and is the text of it, whereas numbers have to be
numbers. Nothing is said about why a document is refused.
-/

namespace GatewayStack

namespace Json

/-- The text of a scalar. -/
def scalarText? : Json → Option String
  | .null => some "null"
  | .bool b => some (boolText b)
  | .num n => some n.text
  | .str s => some s
  | _ => none

/-- A non-negative integer of at most 64 bits. -/
def natural? : Json → Option Nat
  | .num n => n.natural?
  | _ => none

/-- A number as a floating-point one. -/
def real? : Json → Option Binary64
  | .num (.int z) => Binary64.ofInt z
  | .num (.real x) => some x
  | _ => none

end Json

namespace Project

variable {α : Type}

/-- Every item read the same way, when all of them can be. -/
def readAll (read : Json → Option α) : List Json → Option (List α)
  | [] => some []
  | item :: rest =>
    match read item, readAll read rest with
    | some a, some more => some (a :: more)
    | _, _ => none

/-- A field that may be missing or `null`. -/
def optional (fields : Fields Json) (name : String) (read : Json → Option α) :
    Option (Option α) :=
  match Fields.get? fields name with
  | none => some none
  | some .null => some none
  | some value => (read value).map some

/-- A field that may be missing, and then has a default. -/
def withDefault (fields : Fields Json) (name : String) (otherwise : α)
    (read : Json → Option α) : Option α :=
  match Fields.get? fields name with
  | none => some otherwise
  | some value => read value

def quota? (value : Json) : Option Quota := do
  let fields ← value.fields?
  let limit ← optional fields "limit" Json.natural?
  let offset ← optional fields "offset" Json.natural?
  let period ← optional fields "period" Json.scalarText?
  return { limit, offset, period }

def throttle? (value : Json) : Option Throttle := do
  let fields ← value.fields?
  let burstLimit ← optional fields "burstLimit" Json.natural?
  let rate ← optional fields "rateLimit" fun value => value.real?.map .finite
  return { burstLimit, rate }

def usagePlan? (value : Json) : Option UsagePlan := do
  let fields ← value.fields?
  let quota ← optional fields "quota" quota?
  let throttle ← optional fields "throttle" throttle?
  return { quota, throttle }

def gateway? (value : Json) : Option GatewaySettings := do
  let fields ← value.fields?
  let restApiId ← optional fields "restApiId" some
  let rootResourceId ← optional fields "restApiRootResourceId" some
  let resources ←
    withDefault fields "restApiResources" [] fun value =>
      value.fields?.map Fields.sorted
  let texts (value : Json) : Option (List String) :=
    value.items?.bind (readAll Json.scalarText?)
  let binaryMediaTypes ← optional fields "binaryMediaTypes" texts
  let minimumCompressionSize ← optional fields
    "minimumCompressionSize" Json.natural?
  let resourcePolicy ← optional fields "resourcePolicy" Json.items?
  let description ← optional fields "description" Json.scalarText?
  return {
    restApiId, rootResourceId, resources, binaryMediaTypes,
    minimumCompressionSize, resourcePolicy, description }

def settings? (value : Json) : Option ProviderSettings := do
  let fields ← value.fields?
  let stage ← withDefault fields "stage" ProviderSettings.defaultStage
    Json.scalarText?
  let region ← withDefault fields "region" ProviderSettings.defaultRegion
    Json.scalarText?
  let apiName ← optional fields "apiName" Json.scalarText?
  let endpointType ← optional fields "endpointType" Json.scalarText?
  let apiKeys ← optional fields "apiKeys" some
  let usagePlan ← optional fields "usagePlan" usagePlan?
  let gateway ← withDefault fields "apiGateway" GatewaySettings.empty gateway?
  return { stage, region, apiName, endpointType, apiKeys, usagePlan, gateway }

def descriptors? (value : Json) : Option (List Json) := do
  withDefault (← value.fields?) "apiGatewayServiceProxies" [] Json.items?

def ofJson? (value : Json) : Option Project := do
  let fields ← value.fields?
  let service ← withDefault fields "service" "" Json.scalarText?
  let settings ← withDefault fields "provider"
    ProviderSettings.default settings?
  let descriptors ← withDefault fields "custom" [] descriptors?
  return { service, settings, descriptors }

/-- The project in a configuration file that holds this value. -/
def load? (file : Json) : Option Project := (Document.value? file).bind ofJson?

end Project

end GatewayStack
