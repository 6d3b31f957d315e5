import LeafPaths.Command.Arguments
import LeafPaths.Command.EnvFile
import LeafPaths.Command.Report
import LeafPaths.Dataset.File

/-!
What the commands do: the effect of a run on the files, what it prints, and its exit code.
-/

namespace LeafPaths.Command

/-- What a run finds. -/
structure Host where
  grammar : Grammar
  environment : EnvFile.Environment
  files : Files
  stdin : ByteArray
  /-- The words of a shuffle for which no seed is given. -/
  entropy : Nat → UInt32

/-- What a run leaves. -/
structure Exit where
  code : UInt32
  stdout : String
  stderr : String
  files : Files

def versionLine : String := "path-context-backend 0.1.0\n"

def usage : String :=
  "Usage: path-context-backend extract [-i FILE] [-f json|lines]\n" ++
  "       path-context-backend transform [-i FILE] [-o FILE] [--seed NUMBER]\n"

/-! ### Failures -/

def Failure.ofSettings (e : Settings.Error) : Failure := ⟨e.message, []⟩

def Failure.ofFault (f : Fault) : Failure := ⟨f.message, [f.describe]⟩

def formatMessage : Json.Fault → String
  | .malformed => "malformed JSON"
  | .ended => "unexpected end of JSON"
  | .mismatched => "unexpected JSON value"

/-- A dataset error as a chain of messages. -/
def datasetCauses : Dataset.Error → List String
  | .file e => ["io error: " ++ e.message, e.message]
  | .format f => ["serde json error: " ++ formatMessage f, formatMessage f]
  | .reading e => ["serde json error: " ++ e.message, e.message]
  | .sample f => [f.message, f.fault.message, f.fault.describe]

/-! ### Extraction -/

/-- The snippet of a file, or of standard input. -/
def source (host : Host) (input : Option String) : Except Failure String :=
  match input with
  | some path =>
    match host.files.readText path with
    | .ok text => .ok text
    | .error e => .error ⟨"reading " ++ path, [e.message]⟩
  | none =>
    match String.fromUTF8? host.stdin with
    | some text => .ok text
    | none => .error ⟨"reading stdin", [FileError.notText.message]⟩

def Format.print : Format → List Context → String
  | .json, contexts => (Json.list (contexts.map Context.toJson)).print (.indented 2) ++ "\n"
  | .lines, contexts => String.join (contexts.map fun c => c.line ++ "\n")

/-- The contexts that the `extract` command prints. -/
def extracted (host : Host) (settings : Settings) (input : Option String) :
    Except Failure (List Context) :=
  match source host input with
  | .error failure => .error failure
  | .ok text =>
    match host.grammar.extract settings text with
    | .ok contexts => .ok contexts
    | .error fault => .error (.ofFault fault)

/-! ### Runs -/

/-- The file `.env` in a directory, or else in the nearest of so many directories above it. What
has the name and is no file is passed over. -/
def nearestEnvFile? (files : Files) : (levels : Nat) → (directory : Location) → Option ByteArray
  | levels, directory =>
    match files.fileAt? (directory ++ [".env"]), levels with
    | some bytes, _ => some bytes
    | none, 0 => none
    | none, levels + 1 => nearestEnvFile? files levels directory.up

/-- The variables of the host, with those of the nearest file `.env`. -/
def Host.fullEnvironment (host : Host) : EnvFile.Environment :=
  match (nearestEnvFile? host.files host.files.levelsAbove []).bind String.fromUTF8? with
  | some text => EnvFile.load host.environment text
  | none => host.environment

def Host.settings (host : Host) : Except Settings.Error Settings :=
  let env := host.fullEnvironment
  Settings.ofLookup fun n => env.lookup n

def fail (files : Files) (failure : Failure) : Exit := ⟨1, "", failure.report, files⟩

def perform (host : Host) (settings : Settings) : Action → Exit
  | .extract input format =>
    match extracted host settings input with
    | .ok contexts => ⟨0, format.print contexts, "", host.files⟩
    | .error failure => fail host.files failure
  | .transform input output seed =>
    match Dataset.transformFile host.grammar settings input output (.of seed host.entropy)
      host.files with
    | (.ok _, files) => ⟨0, "", "", files⟩
    | (.error e, files) => fail files ⟨"transforming " ++ input, datasetCauses e⟩

/-- Runs the command that the arguments ask for. -/
def run (host : Host) (arguments : List String) : Exit :=
  match Request.of? arguments with
  | none => ⟨2, "", usage, host.files⟩
  | some .version => ⟨0, versionLine, "", host.files⟩
  | some .help => ⟨0, usage, "", host.files⟩
  | some (.action action) =>
    match host.settings with
    | .error e => fail host.files (.ofSettings e)
    | .ok settings => perform host settings action

end LeafPaths.Command
