import GatewayStack.Schema.Parse
import GatewayStack.Stack.ApiKeys
import GatewayStack.Stack.Backend
import GatewayStack.Stack.Deployment
import GatewayStack.Stack.PathTree

/-!
# Compiling descriptors into a template

The stages run in a fixed order, each turning the events into a fragment that
is folded into a working copy of the template: the API, the tree of paths, the
preflights, the services one by one, then the deployment, which depends on all
methods so far, and last the keys, which depend on the deployment.

The copy takes the place of the template when all of this has gone well. A
compilation that fails leaves the template as it was, and one without
descriptors does nothing.
-/

namespace GatewayStack

/-- What a compilation added. -/
structure Report where
  events : Nat
  /-- The ids of the methods, in the order in which they were made. -/
  methodIds : List String
  /-- The deployment that the methods were wired to. -/
  deploymentId : Option String
  deriving DecidableEq, Repr

def Report.empty : Report := ⟨0, [], none⟩

/-- Why a compilation failed. -/
inductive CompileError where
  | invalid (error : ValidationError)
  | misconfigured (reason : Misconfiguration)
  deriving DecidableEq, Repr

def CompileError.message : CompileError → String
  | .invalid error => error.message
  | .misconfigured reason => reason.message

namespace Compile

/-- Work on a copy of the template. A failure loses the copy. -/
abbrev Work := StateT Template (Except Misconfiguration)

/-- Folds a fragment into the copy; the answer is the ids of its methods. -/
def fold (fragment : Fragment) : Work (List String) :=
  modifyGet (·.absorb fragment)

/-- Runs stages one by one, folding in what each makes. The answer is the ids
of all their methods, in order. -/
def runStages : List (Except Misconfiguration Fragment) → Work (List String)
  | [] => return []
  | stage :: rest => do
    let methodIds ← fold (← stage)
    return methodIds ++ (← runStages rest)

/-- The stages before the deployment, in order. -/
def earlyStages (provider : Provider) (normalized : Normalized) :
    List (Except Misconfiguration Fragment) :=
  let api := Api.ofProvider provider
  RestApi.stage provider :: .ok (PathTree.stage api normalized.events)
    :: .ok (Preflight.stage api normalized.preflights)
    :: Service.all.map fun service => .ok (Backend.stage api normalized service)

/-- Compiles events into the copy. -/
def work (provider : Provider) (normalized : Normalized) : Work Report := do
  let api := Api.ofProvider provider
  let methodIds ← runStages (earlyStages provider normalized)
  let (deployment, deploymentId) :=
    Deployment.stage provider api (← get) methodIds
  let _ ← fold deployment
  let _ ← fold (← ApiKeys.stage provider api deploymentId)
  return ⟨normalized.events.length, methodIds, some deploymentId⟩

/-- What compiling events makes of a copy of a template. -/
def events (provider : Provider) (normalized : Normalized)
    (template : Template) :
    Except Misconfiguration (Report × Template) :=
  (work provider normalized).run template

/-- Compiles at least one descriptor into a copy of a template. -/
def descriptors (provider : Provider) (descriptors : List Json)
    (template : Template) :
    Except CompileError (Report × Template) :=
  match parse descriptors with
  | .error error => .error (.invalid error)
  | .ok proxies =>
    (events provider (Normalized.ofProxies proxies) template).mapError
      .misconfigured

/-- A copy that is done takes the place of the template, which is the state. -/
def commit (result : Except CompileError (Report × Template)) :
    ExceptT CompileError (StateM Template) Report := do
  let (report, copy) ← result
  set copy
  return report

/-- Compiles descriptors into the template that is the state. -/
def update (provider : Provider) : List Json →
    ExceptT CompileError (StateM Template) Report
  | [] => return Report.empty
  | descriptor :: rest => do
    commit (Compile.descriptors provider (descriptor :: rest) (← get))

end Compile

/-- Compiles descriptors into a template. The answer is the report or the
failure, and the template afterwards. -/
def compile (provider : Provider) (descriptors : List Json)
    (template : Template) :
    Except CompileError Report × Template :=
  (Compile.update provider descriptors).run.run template

end GatewayStack
