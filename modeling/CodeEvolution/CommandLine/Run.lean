import CodeEvolution.CommandLine.Arguments
import CodeEvolution.Config.Discovery
import CodeEvolution.Detection.Loading
import CodeEvolution.Detection.Pool
/-!
# A call of the command line

A call loads two snapshots and prints the refactorings between them. It fails with exit code 2 if
its arguments are misused, and with exit code 1 if a configuration or a snapshot cannot be read; in
both cases nothing is printed on the standard output.
-/
namespace CodeEvolution.CommandLine

structure Outcome where
  exitCode : Nat := 0
  output : String := ""
  errors : String := ""
deriving DecidableEq, Repr

def lines (texts : List String) : String :=
  String.join (texts.map fun text => text ++ "\n")

def textReport (unexplained : Bool) (detection : Detection) : String :=
  lines (detection.refactorings.map Refactoring.description ++
    if unexplained then
      detection.unexplained.map fun delta => "Unexplained " ++ delta.toJson.compact
    else [])

def jsonReport (unexplained : Bool) (detection : Detection) : String :=
  lines [Json.pretty (.obj
    ([("refactorings", .arr (detection.refactorings.map Refactoring.toJson))] ++
      (if unexplained then [("unexplained", .arr (detection.unexplained.map DeltaKey.toJson))]
        else []) ++
      [("skipped", .arr (detection.skipped.map SkippedFile.toJson))]))]

def report (arguments : Arguments) (detection : Detection) : Outcome :=
  match arguments.format with
  | .json => { output := jsonReport arguments.unexplained detection }
  | .text =>
    { output := textReport arguments.unexplained detection
      errors := lines (detection.skipped.map fun skipped =>
        "Skipped " ++ skipped.file ++ ": " ++ skipped.reason) }

def baseConfig (tree home : FileTree) (arguments : Arguments) : Except Failure Config :=
  match arguments.config with
  | some path => Config.ofFile tree path
  | none => Config.load tree home tree.workingPath

/-- A configuration with the settings that the arguments override. At least one file is read at a
time. -/
def overridden (arguments : Arguments) (config : Config) : Config :=
  { config with
    patterns := if arguments.patterns.isEmpty then config.patterns else arguments.patterns
    maxConcurrency := (arguments.maxConcurrency.map (max 1)).getD config.maxConcurrency
    maxFileSize := arguments.maxFileSize.getD config.maxFileSize }

def detect (grammar : Grammar) (tree home : FileTree) (arguments : Arguments) :
    Except Failure Detection := do
  let config := overridden arguments (← baseConfig tree home arguments)
  let load (path : String) := Snapshot.ofDirectory tree path config.patterns config.maxFileSize
  let before ← load arguments.before
  let after ← load arguments.after
  let detector : Detector := ⟨grammar, config⟩
  return (detector.detectConcurrently detector.emptyCache before after).1

def usage : String :=
  "Usage: refminer [OPTIONS] <BEFORE> <AFTER>"

def run (grammar : Grammar) (tree home : FileTree) (arguments : List String) : Outcome :=
  match Arguments.ofList? arguments with
  | none => { exitCode := 2, errors := lines [usage] }
  | some arguments =>
    match detect grammar tree home arguments with
    | .ok detection => report arguments detection
    | .error failure => { exitCode := 1, errors := lines ["Error: " ++ failure.message] }

end CodeEvolution.CommandLine
