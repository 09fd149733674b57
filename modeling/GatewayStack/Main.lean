import GatewayStack.Command

/-!
# The program

Reads the arguments and the files they name, runs the command, and carries out
what it asks for. A configuration file is read as JSON.
-/

namespace GatewayStack.Program

/-- The arguments of a run, before any file is read. -/
structure Arguments where
  config : String
  template : Option String
  output : Option String
  token : Option String
  restApiId : Option String

def Arguments.default : Arguments := ⟨"serverless.yml", none, none, none, none⟩

/-- Reads options, each followed by its value. -/
def Arguments.read (arguments : Arguments) : List String → Option Arguments
  | [] => some arguments
  | "--verbose" :: rest | "-v" :: rest => arguments.read rest
  | "--config" :: value :: rest | "-c" :: value :: rest =>
    { arguments with config := value }.read rest
  | "--template" :: value :: rest | "-t" :: value :: rest =>
    { arguments with template := some value }.read rest
  | "--output" :: value :: rest | "-o" :: value :: rest =>
    { arguments with output := some value }.read rest
  | "--instance-id" :: value :: rest =>
    { arguments with token := some value }.read rest
  | "--rest-api-id" :: value :: rest =>
    { arguments with restApiId := some value }.read rest
  | _ => none

def readText (name : String) : IO (Except FileProblem String) := do
  try
    return .ok (← IO.FS.readFile name)
  catch _ => return .error .missing

def readValue (name : String) : IO (File Json) := do
  let content ← readText name
  let value :=
    match content with
    | .error problem => .error problem
    | .ok text =>
      match Json.parse? text with
      | some value => .ok value
      | none => .error .malformed
  return ⟨name, value⟩

/-- A token that no other build has. -/
def freshToken : IO String := do
  let bytes ← IO.getRandomBytes 6
  return toString (bytes.toList.foldl (fun n byte => n * 256 + byte.toNat) 0)

/-- The command that a name and its arguments ask for. -/
def command (name : String) (arguments : Arguments) : IO (Option Command) := do
  match name, arguments.restApiId with
  | "compile", _ =>
    let template ← arguments.template.mapM fun name =>
      return ⟨name, ← readText name⟩
    let token ← arguments.token.getDM freshToken
    return some (.compile template token arguments.output)
  | "validate", _ => return some .validate
  | "info", some restApiId => return some (.info restApiId)
  | _, _ => return none

/-- Prints, writes and exits as an effect says. -/
def carryOut (effect : Effect) : IO UInt32 := do
  if let some (name, content) := effect.written then
    IO.FS.writeFile name content
  IO.print effect.stdout
  IO.eprint effect.stderr
  return effect.code.toUInt32

/-- The message for arguments that make no sense. -/
def usage : String :=
  "usage: compile|validate|info [--config FILE] [--template FILE] [--output FILE]\n"
    ++ "       [--instance-id TOKEN] [--rest-api-id ID]"

def run (words : List String) : IO UInt32 := do
  let refused := do
    IO.eprintln usage
    return (2 : UInt32)
  match words with
  | [] => refused
  | name :: rest =>
    match Arguments.default.read rest with
    | none => refused
    | some arguments =>
      match ← command name arguments with
      | none => refused
      | some command => carryOut (command.run (← readValue arguments.config))

end GatewayStack.Program

def main (words : List String) : IO UInt32 := GatewayStack.Program.run words
