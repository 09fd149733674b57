import GatewayStack.Endpoints
import GatewayStack.Project.Decode
import GatewayStack.Stack.Compile

/-!
# Commands

The three things the program does with a configuration file: compile it into a
template, check it, or list its endpoints. A command is a function from the
contents of its files to what the program prints, writes and exits with;
carrying that out is left to the caller.
-/

namespace GatewayStack

/-- Why the contents of a file cannot be used. -/
inductive FileProblem where
  | missing
  | malformed
  deriving DecidableEq, Repr

def FileProblem.message : FileProblem → String
  | .missing => "No such file or directory (os error 2)"
  | .malformed => "not a document of the expected form"

/-- A file by its name, with its contents when it could be read. -/
structure File (α : Type) where
  name : String
  content : Except FileProblem α

inductive Command where
  /-- Compile into a new template, or into the given one; print the result, or
  write it to the file of that name. -/
  | compile (template : Option (File String)) (token : String)
    (output : Option String)
  | validate
  /-- List the endpoints of a deployed stage. -/
  | info (restApiId : String)

/-- What a command does to the outside. -/
structure Effect where
  code : Nat
  stdout : String
  stderr : String
  /-- A file to write: its name and its contents. -/
  written : Option (String × String)
  deriving DecidableEq, Repr

namespace Effect

/-- Success with a text on the standard output. -/
def printed (text : String) : Effect := ⟨0, text ++ "\n", "", none⟩

/-- Success with a note on the error output. -/
def noted (text : String) : Effect := ⟨0, "", text ++ "\n", none⟩

/-- A text with every line after the first indented. -/
def indent (text : String) : String :=
  String.ofList (text.toList.flatMap fun c =>
    if c = '\n' then ['\n', ' ', ' ', ' ', ' '] else [c])

/-- Failure: what was being done, and why it did not work. -/
def failed (doing cause : String) : Effect :=
  ⟨1, "", "Error: " ++ doing ++ "\n\nCaused by:\n    " ++
    indent cause ++ "\n", none⟩

end Effect

namespace Command

def loadProject (config : File Json) : Except Effect Project :=
  let failed (problem : FileProblem) :=
    Effect.failed ("Failed to load config: " ++ config.name) problem.message
  match config.content with
  | .error problem => .error (failed problem)
  | .ok file =>
    match Project.load? file with
    | some project => .ok project
    | none => .error (failed .malformed)

def loadTemplate : Option (File String) → Except Effect Template
  | none => .ok Template.empty
  | some file =>
    match file.content with
    | .error problem =>
      .error (Effect.failed ("Failed to read template: " ++ file.name)
        problem.message)
    | .ok text =>
      let failed := Effect.failed ("Failed to parse template: " ++ file.name)
      match Template.ofText text with
      | .ok template => .ok template
      | .error .notJson => .error (failed FileProblem.malformed.message)
      | .error (.misconfigured reason) => .error (failed reason.message)

def loadProxies (project : Project) : Except Effect (List ServiceProxy) :=
  match parse project.descriptors with
  | .ok proxies => .ok proxies
  | .error error =>
    .error (Effect.failed "Invalid service proxy configuration" error.message)

def runCompile (config : File Json) (template : Option (File String))
    (token : String) (output : Option String) : Except Effect Effect := do
  let project ← loadProject config
  let template ← loadTemplate template
  match GatewayStack.compile (project.provider token)
      project.descriptors template with
  | (.error error, _) =>
    throw (Effect.failed "Failed to compile service proxies" error.message)
  | (.ok report, compiled) =>
    match output with
    | none => return Effect.printed compiled.text
    | some name =>
      let note := "Compiled " ++ toString report.events ++ " service proxies ("
        ++ toString report.methodIds.length ++ " methods) into " ++ name
      return { Effect.noted note with written := some (name, compiled.text) }

def runValidate (config : File Json) : Except Effect Effect := do
  let proxies ← loadProxies (← loadProject config)
  return Effect.noted (toString proxies.length ++ " service proxies are valid")

def runInfo (config : File Json) (restApiId : String) :
    Except Effect Effect := do
  let project ← loadProject config
  let normalized := Normalized.ofProxies (← loadProxies project)
  let base := Endpoints.base restApiId project.settings.region
    project.settings.stage
  return Effect.printed (Endpoints.report normalized.events base)

/-- Everything a command does, whether it succeeds or fails. -/
def run (config : File Json) (command : Command) : Effect :=
  let result :=
    match command with
    | .compile template token output => runCompile config template token output
    | .validate => runValidate config
    | .info restApiId => runInfo config restApiId
  match result with
  | .ok effect => effect
  | .error effect => effect

end Command

end GatewayStack
