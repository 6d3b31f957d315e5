import LeafPaths.Command.Run
import LeafPaths.Cst.Catalog

/-!
The program. Its syntax trees come from a catalogue, a file that the variable
`PATH_CONTEXT_SYNTAX_TREES` names.
-/

namespace LeafPaths.Main

/-- The variables of the settings. -/
def settingNames : List String :=
  ["PATH_CONTEXT_MAX_LENGTH", "PATH_CONTEXT_MAX_WIDTH", "PATH_CONTEXT_MAX_CONTEXTS"]

/-- All variables, to which a file that sets some may refer. Where the system does not list them,
those of the settings. -/
def readEnvironment : IO EnvFile.Environment := do
  try
    let bytes ← IO.FS.readBinFile "/proc/self/environ"
    match String.fromUTF8? bytes with
    | some block => return EnvFile.ofBlock block
    | none => throw (IO.userError "variables are no text")
  catch _ =>
    let found ← settingNames.mapM fun n => do return (n, ← IO.getEnv n)
    return found.filterMap fun entry => entry.2.map fun value => (entry.1, value)

/-- What is at a path: a file, a directory, or nothing. -/
def readEntry (path : String) : IO (Option Entry) := do
  try
    let bytes ← IO.FS.readBinFile path
    return some (.file bytes)
  catch
    | .noFileOrDirectory .. => return none
    | _ => return some .directory

/-- What is found on a way, step by step, up to the first file. The way so far is spelled
`spelled`. -/
def survey (spelled : String) (l : Location) : List String → IO (List (Location × Entry))
  | [] => return []
  | component :: later => do
    let spelled := spelled ++ component
    let l := l.step component
    match ← readEntry spelled with
    | none => return []
    | some .directory => return (l, .directory) :: (← survey (spelled ++ "/") l later)
    | some entry => return [(l, entry)]

/-- What is found on the way to a path. -/
def surveyPath (path : String) : IO (List (Location × Entry)) :=
  survey (if path.startsWith "/" then "/" else "") (.start path) (Location.components path)

def readCatalog : IO Catalog := do
  match ← IO.getEnv "PATH_CONTEXT_SYNTAX_TREES" with
  | none => return []
  | some path =>
    match Catalog.read (← IO.FS.readBinFile path) with
    | .ok known => return known
    | .error _ => throw (IO.userError ("no catalogue of syntax trees: " ++ path))

/-- The path that a request writes. -/
def output? : Command.Request → Option String
  | .action (.transform _ path _) => some path
  | _ => none

/-- The paths that a request names. -/
def paths : Command.Request → List String
  | .action (.extract (some path) _) => [path]
  | .action (.transform input output _) => [input, output]
  | _ => []

def readsStdin : Command.Request → Bool
  | .action (.extract none _) => true
  | _ => false

/-- The paths of the files `.env` in the working directory and in those above it. -/
def envFilePaths : IO (List String) := do
  let directory ← IO.currentDir
  let levels := (Location.components directory.toString).length
  return (List.range (levels + 1)).map fun n =>
    String.join (List.replicate n "../") ++ ".env"

def readFiles (request : Command.Request) : IO Files := do
  let entries ← ((← envFilePaths) ++ paths request).mapM surveyPath
  return ⟨entries.flatten⟩

/-- The words of a generator with a key that the system draws. -/
def readEntropy : IO (Nat → UInt32) := do
  let drawn ← IO.getRandomBytes 32
  let key := (List.range 8).map fun i =>
    (List.range 4).foldl (fun w k => w * 256 + (drawn.get! (4 * i + k)).toUInt32) 0
  return Shuffle.keyWord key

def readHost (request : Command.Request) : IO Command.Host := do
  let files ← readFiles request
  let stdin ← if readsStdin request then (← IO.getStdin).readBinToEnd else pure .empty
  return { grammar := (← readCatalog).grammar, environment := ← readEnvironment, files, stdin,
           entropy := ← readEntropy }

/-- Writes the file that a run has left at the path of its output. -/
def writeOutput (request : Command.Request) (files : Files) : IO Unit := do
  match output? request with
  | none => return
  | some path =>
    match files.find? (.ofPath path) with
    | some (.file bytes) => IO.FS.writeBinFile path bytes
    | _ => return

end LeafPaths.Main

open LeafPaths in
def main (arguments : List String) : IO UInt32 := do
  let request := (Command.Request.of? arguments).getD .help
  let host ← Main.readHost request
  let exit := Command.run host arguments
  if exit.code = 0 then Main.writeOutput request exit.files
  IO.print exit.stdout
  IO.eprint exit.stderr
  return exit.code
