import GatewayStack.Json.Merge
import GatewayStack.Json.Parser
import GatewayStack.Json.Printer
import GatewayStack.Misconfiguration
import GatewayStack.Template.Fragment

/-!
# Templates

A template is a document with the sections `Resources` and `Outputs` taken
out of it. Fragments are folded in without destroying anything: a mapping is
merged field by field, so whatever a fragment does not mention survives.

Writing a template puts the sections back at the end of the document; empty
outputs are left out.
-/

namespace GatewayStack

structure Template where
  /-- The document without its two sections. -/
  head : Fields Json
  resources : Fields Json
  outputs : Fields Json
  deriving DecidableEq

/-- Why a text is no template. -/
inductive TemplateError where
  | notJson
  | misconfigured (reason : Misconfiguration)
  deriving DecidableEq, Repr

namespace Template

/-- A template with nothing in it but the version of its format. -/
def empty : Template := ⟨[("AWSTemplateFormatVersion", "2010-09-09")], [], []⟩

/-- Takes a section out of a document; a missing one is empty. -/
def takeSection (head : Fields Json) (name : String) :
    Except Misconfiguration (Fields Json × Fields Json) :=
  match Fields.get? head name with
  | none => .ok ([], head)
  | some .null => .ok ([], Fields.swapRemove head name)
  | some (.obj fields) => .ok (fields, Fields.swapRemove head name)
  | some _ => .error (.sectionNotMapping name)

/-- The template in a document. -/
def ofJson : Json → Except Misconfiguration Template
  | .obj document => do
    let (resources, document) ← takeSection document "Resources"
    let (outputs, head) ← takeSection document "Outputs"
    return { head, resources, outputs }
  | _ => .error .templateNotMapping

/-- The template in a JSON text. -/
def ofText (text : String) : Except TemplateError Template :=
  match Json.parse? text with
  | none => .error .notJson
  | some value => (ofJson value).mapError .misconfigured

def toJson (template : Template) : Json :=
  let document := Fields.set template.head "Resources" (.obj template.resources)
  .obj (if template.outputs.isEmpty then document
    else Fields.set document "Outputs" (.obj template.outputs))

def text (template : Template) : String := template.toJson.pretty

def resource? (template : Template) (id : String) : Option Json :=
  Fields.get? template.resources id

/-- The first resource of a type. -/
def findOfType? (template : Template) (type : String) :
    Option (String × Json) :=
  template.resources.find? fun entry => entry.2.field? "Type" = some (.str type)

def merge (template : Template) (fragment : Fragment) : Template :=
  { template with
    resources := Json.mergeFields template.resources fragment.resources
    outputs := Json.mergeFields template.outputs fragment.outputs }

/-- Folds a fragment in and hands on the ids of the methods that it tracks. -/
def absorb (template : Template) (fragment : Fragment) :
    List String × Template :=
  (fragment.methodIds, template.merge fragment)

end Template

end GatewayStack
