/-!
The files of a system, as a program sees them from its working directory. A path leads step by
step to a location; each step has to start from a directory.
-/

namespace LeafPaths

/-- The names on the way from the working directory. Names `..` stand at the head only and lead
above it; a name `/` at the head is the root of the system. -/
abbrev Location := List String

namespace Location

/-- The directory above; the root is its own. -/
def up (l : Location) : Location :=
  match l.getLast? with
  | none => [".."]
  | some ".." => l ++ [".."]
  | some "/" => l
  | some _ => l.dropLast

def step (l : Location) (component : String) : Location :=
  if component = "." then l else if component = ".." then l.up else l ++ [component]

def start (path : String) : Location := if path.startsWith "/" then ["/"] else []

/-- The steps of a path. Slashes in a row are one. -/
def components (path : String) : List String :=
  ((path.toList.splitOn '/').filter (· ≠ [])).map String.ofList

def ofPath (path : String) : Location := (components path).foldl step (start path)

end Location

inductive Entry where
  | file (bytes : ByteArray)
  | directory
  deriving Inhabited

def Entry.isDirectory : Entry → Bool
  | file _ => false
  | directory => true

/-- What is known of a system: files, and directories that may be empty. -/
structure Files where
  entries : List (Location × Entry)

inductive FileError where
  | notFound
  | notADirectory
  | isADirectory
  | nameTooLong
  /-- A path holds a zero byte, which no path can. -/
  | zeroByte
  /-- The bytes are no text. -/
  | notText
  deriving DecidableEq, Repr

def FileError.message : FileError → String
  | .notFound => "No such file or directory (os error 2)"
  | .notADirectory => "Not a directory (os error 20)"
  | .isADirectory => "Is a directory (os error 21)"
  | .nameTooLong => "File name too long (os error 36)"
  | .zeroByte => "file name contained an unexpected NUL byte"
  | .notText => "stream did not contain valid UTF-8"

namespace Files

/-! ### What is there -/

def find? (files : Files) (l : Location) : Option Entry := files.entries.lookup l

/-- The root, the working directory and those above it are directories; so is what holds
anything. -/
def isDirectory (files : Files) (l : Location) : Bool :=
  l.all (fun component => component = ".." || component = "/") ||
    (files.find? l).any (·.isDirectory) ||
    files.entries.any fun entry => l.isPrefixOf entry.1 && l.length < entry.1.length

def holds (files : Files) (l : Location) : Bool := files.isDirectory l || (files.find? l).isSome

/-- The bytes of the file at a location. -/
def fileAt? (files : Files) (l : Location) : Option ByteArray :=
  match files.find? l with
  | some (.file bytes) => if files.isDirectory l then none else some bytes
  | _ => none

/-- How many directories above the working directory anything is known of. -/
def levelsAbove (files : Files) : Nat :=
  files.entries.foldl (fun most entry => max most (entry.1.takeWhile (· = "..")).length) 0

/-! ### Paths -/

def maxName : Nat := 255

def maxPath : Nat := 4095

/-- What is wrong with a path before any step. -/
def refuses? (path : String) : Option FileError :=
  if path.contains '\x00' then some .zeroByte
  else if maxPath < path.utf8ByteSize then some .nameTooLong
  else if path.isEmpty then some .notFound
  else none

/-- Takes steps from a location that is there, each to another one. -/
def walk (files : Files) : Location → List String → Except FileError Location
  | l, [] => .ok l
  | l, component :: later =>
    let next := l.step component
    if !files.isDirectory l then .error .notADirectory
    else if maxName < component.utf8ByteSize then .error .nameTooLong
    else if files.holds next then files.walk next later
    else .error .notFound

/-- The location of what is at a path. -/
def locate (files : Files) (path : String) : Except FileError Location :=
  match refuses? path with
  | some error => .error error
  | none => files.walk (.start path) (Location.components path)

/-- The location of a file that may still have to be created: its last name, which no slash may
follow, need not be there. -/
def locateTarget (files : Files) (path : String) : Except FileError Location :=
  match refuses? path, (Location.components path).getLast? with
  | some error, _ => .error error
  | none, none => .error .isADirectory
  | none, some last =>
    match files.walk (.start path) (Location.components path).dropLast with
    | .error error => .error error
    | .ok parent =>
      let target := parent.step last
      if !files.isDirectory parent then .error .notADirectory
      else if last = "." || last = ".." || path.endsWith "/" then .error .isADirectory
      else if maxName < last.utf8ByteSize then .error .nameTooLong
      else if files.isDirectory target then .error .isADirectory
      else .ok target

/-! ### Reading and writing -/

def read (files : Files) (path : String) : Except FileError ByteArray :=
  match files.locate path with
  | .error error => .error error
  | .ok l =>
    if files.isDirectory l then .error .isADirectory
    else
      match files.find? l with
      | some (.file bytes) => if path.endsWith "/" then .error .notADirectory else .ok bytes
      | _ => .error .notFound

def readText (files : Files) (path : String) : Except FileError String :=
  match files.read path with
  | .error error => .error error
  | .ok bytes =>
    match String.fromUTF8? bytes with
    | some text => .ok text
    | none => .error .notText

def put (files : Files) (l : Location) (bytes : ByteArray) : Files :=
  ⟨(l, .file bytes) :: files.entries.filter (·.1 ≠ l)⟩

def write (files : Files) (path : String) (bytes : ByteArray) : Except FileError Files :=
  (files.locateTarget path).map (files.put · bytes)

end Files
end LeafPaths
