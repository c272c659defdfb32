import SceneScript.Transpile

/-!
# The command line

Arguments are options, each with a value, and a flag that asks for help. An option given again
replaces its earlier value. What the program answers is an `Outcome`: an exit code with the text of
both output streams.
-/

namespace SceneScript

/-- What takes a value on the command line. -/
inductive OptionName where
  | input
  | output
  | base
  deriving DecidableEq, Repr

/-- The name that messages give an option. -/
def OptionName.text : OptionName → String
  | .input => "--input"
  | .output => "--output"
  | .base => "--base-dir"

/-- One word of the command line. -/
inductive Word where
  | help
  | option (name : OptionName)
  | unknown (text : String)
  deriving DecidableEq, Repr

/-- The meaning of an argument in the place of an option. -/
def Word.ofText (text : String) : Word :=
  if text = "--help" || text = "-h" then .help
  else if text = "--input" || text = "-i" then .option .input
  else if text = "--output" || text = "-o" then .option .output
  else if text = "--base-dir" then .option .base
  else .unknown text

/-- The form of the command line. -/
def usage : String :=
  "usage: sihm --input <scene.yaml|json|ini> [--output <scene.js>] [--base-dir <dir>]"

/-- What is wrong with a command line. -/
inductive UsageError where
  | missingValue (name : OptionName)
  | unknownArgument (text : String)
  | inputRequired
  deriving DecidableEq, Repr

/-- A wrong command line in words. -/
def UsageError.message : UsageError → String
  | .missingValue name => "missing value for " ++ name.text
  | .unknownArgument text => "unknown argument: " ++ text ++ "\n" ++ usage
  | .inputRequired => "--input is required\n" ++ usage

/-- What a command line says. -/
structure Invocation where
  input : Option Path
  output : Option Path
  base : Option Path
  help : Bool
  deriving DecidableEq, Repr

namespace Invocation

/-- The empty command line. -/
def empty : Invocation :=
  ⟨none, none, none, false⟩

/-- Sets an option. -/
def set (i : Invocation) (name : OptionName) (value : Path) : Invocation :=
  match name with
  | .input => { i with input := some value }
  | .output => { i with output := some value }
  | .base => { i with base := some value }

/-- Reads more arguments. The first that is wrong decides. -/
def readFrom (i : Invocation) : List String → Except UsageError Invocation
  | [] => .ok i
  | word :: rest =>
    match Word.ofText word with
    | .help => readFrom { i with help := true } rest
    | .unknown text => .error (.unknownArgument text)
    | .option name =>
      match rest with
      | [] => .error (.missingValue name)
      | value :: rest => readFrom (i.set name ⟨value⟩) rest

/-- Reads arguments. -/
def read (args : List String) : Except UsageError Invocation :=
  readFrom empty args

/-- The run that is asked for. The output stands beside the input unless it is given. -/
def request (i : Invocation) : Except UsageError Request :=
  match i.input with
  | none => .error .inputRequired
  | some config =>
    .ok ⟨config, i.output.getD (config.withExtension "js"), i.base⟩

end Invocation

/-- An exit code with the text of both output streams. -/
structure Outcome where
  exit : Nat
  stdout : String
  stderr : String
  deriving DecidableEq, Repr

namespace Outcome

/-- An end with a message of failure. -/
def failure (message : String) : Outcome :=
  ⟨1, "", "[sihm] error: " ++ message ++ "\n"⟩

/-- The help. -/
def help : Outcome :=
  ⟨0, usage ++ "\n", ""⟩

/-- What is told of a run that has made its files. -/
def saved (r : Report) : Outcome :=
  ⟨0,
    "[sihm] saved: " ++ r.outputFile.text ++ "\n" ++
      String.join (r.generatedFiles.map fun p => "[sihm]   + " ++ p.text ++ "\n"),
    ""⟩

/-- What is told of a run. -/
def ofRun (r : Request) (run : Run) : Outcome :=
  match run.result with
  | .ok report => saved report
  | .error e => failure ("failed to transpile " ++ r.config.text ++ ": " ++ e.trail)

end Outcome

/-- What a command line asks to be done. -/
inductive Command where
  | refuse (e : UsageError)
  | help
  | transpile (r : Request)
  deriving DecidableEq, Repr

/-- The command that arguments give. Help comes before a missing input. -/
def Command.ofArguments (args : List String) : Command :=
  match Invocation.read args with
  | .error e => .refuse e
  | .ok i =>
    if i.help then .help
    else
      match i.request with
      | .error e => .refuse e
      | .ok r => .transpile r

/-- Carries out a command. The warnings come with the outcome and the disk. -/
def Command.run (d : Disk) : Command → Outcome × Disk × List Warning
  | .refuse e => (.failure e.message, d, [])
  | .help => (.help, d, [])
  | .transpile r =>
    let run := SceneScript.transpile r d
    (.ofRun r run, run.disk, run.warnings)

end SceneScript
