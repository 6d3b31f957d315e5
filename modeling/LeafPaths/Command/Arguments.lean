import LeafPaths.Text.Decimal

/-!
The arguments of the command line. A command has options, each given once at most: as `--name
value`, `--name=value`, `-n value`, `-nvalue` or `-n=value`.
-/

namespace LeafPaths.Command

inductive Format where
  | json
  | lines
  deriving DecidableEq, Repr

inductive Action where
  /-- The contexts of one snippet, from a file or from standard input. -/
  | extract (input : Option String) (format : Format)
  /-- The examples of a dataset, from file to file. -/
  | transform (input output : String) (seed : Option UInt64)
  deriving DecidableEq, Repr

inductive Request where
  | version
  | help
  | action (a : Action)
  deriving DecidableEq, Repr

def Format.of? : String → Option Format
  | "json" => some .json
  | "lines" => some .lines
  | _ => none

inductive ValueKind where
  | path
  | format
  | number
  deriving DecidableEq, Repr

def ValueKind.accepts : ValueKind → String → Bool
  | path, value => value ≠ ""
  | format, value => (Format.of? value).isSome
  | number, value => (Text.readWord? value.toList).isSome

/-- An option, by its long name and, if it has one, its letter. -/
structure Flag where
  name : String
  letter : Option Char
  kind : ValueKind
  deriving DecidableEq, Repr

abbrev Values := List (String × String)

/-! ### Options -/

inductive Opening where
  | long (name : String) (value : Option String)
  | short (letter : Char) (value : Option String)
  deriving DecidableEq, Repr

def splitEquals (cs : List Char) : List Char × Option (List Char) :=
  (cs.takeWhile (· ≠ '='), ((cs.dropWhile (· ≠ '=')).tail?))

/-- What an argument opens. A lone dash, and what does not begin with one, is a plain word. -/
def Opening.of? (argument : String) : Option Opening :=
  match argument.toList with
  | '-' :: '-' :: cs =>
    let parts := splitEquals cs
    some (.long (String.ofList parts.1) (parts.2.map String.ofList))
  | ['-'] => none
  | ['-', c] => some (.short c none)
  | '-' :: c :: '=' :: cs => some (.short c (some (String.ofList cs)))
  | '-' :: c :: cs => some (.short c (some (String.ofList cs)))
  | _ => none

def Opening.flag? (flags : List Flag) : Opening → Option Flag
  | .long name _ => flags.find? (·.name == name)
  | .short letter _ => flags.find? (·.letter == some letter)

def Opening.value? : Opening → Option String
  | .long _ value | .short _ value => value

def Opening.asksHelp : Opening → Bool
  | .long name none => name = "help"
  | .short letter _ => letter = 'h'
  | _ => false

inductive Outcome where
  | values (given : Values)
  | help
  | refused
  deriving DecidableEq, Repr

/-- Reads the options of a command; `pending` is an option that waits for its value. Two dashes end
the options, and nothing may follow. What is wrong before a request for help is not forgiven. -/
def readOptions (flags : List Flag) : (pending : Option Flag) → Values → List String → Outcome
  | none, given, [] => .values given
  | some _, _, [] => .refused
  | some flag, given, argument :: rest =>
    if argument = "--" || (Opening.of? argument).isSome || !flag.kind.accepts argument then .refused
    else readOptions flags none ((flag.name, argument) :: given) rest
  | none, given, argument :: rest =>
    if argument = "--" then if rest.isEmpty then .values given else .refused
    else
      match Opening.of? argument with
      | none => .refused
      | some opening =>
        match opening.flag? flags with
        | none => if opening.asksHelp then .help else .refused
        | some flag =>
          if (given.lookup flag.name).isSome then .refused
          else
            match opening.value? with
            | some value =>
              if flag.kind.accepts value then
                readOptions flags none ((flag.name, value) :: given) rest
              else .refused
            | none => readOptions flags (some flag) given rest

/-! ### Commands -/

def extractFlags : List Flag := [⟨"input", some 'i', .path⟩, ⟨"format", some 'f', .format⟩]

def transformFlags : List Flag :=
  [⟨"input", some 'i', .path⟩, ⟨"output", some 'o', .path⟩, ⟨"seed", none, .number⟩]

def extractOf (given : Values) : Action :=
  .extract (given.lookup "input") (((given.lookup "format").bind Format.of?).getD .json)

def transformOf (given : Values) : Action :=
  .transform ((given.lookup "input").getD "./data.json")
    ((given.lookup "output").getD "./training_data.json")
    ((given.lookup "seed").bind fun value => Text.readWord? value.toList)

def Outcome.request? (actionOf : Values → Action) : Outcome → Option Request
  | .values given => some (.action (actionOf given))
  | .help => some .help
  | .refused => none

/-- There is help on the program and on each of its commands. -/
def isTopic : List String → Bool
  | [] => true
  | [command] => command ∈ ["extract", "transform", "help"]
  | _ => false

/-- What the arguments ask for; `none` when they make no sense. -/
def Request.of? : List String → Option Request
  | "extract" :: rest => (readOptions extractFlags none [] rest).request? extractOf
  | "transform" :: rest => (readOptions transformFlags none [] rest).request? transformOf
  | "help" :: topic => if isTopic topic then some .help else none
  | argument :: _ =>
    match Opening.of? argument with
    | some (.long "version" none) => some .version
    | some (.short 'V' _) => some .version
    | some opening => if opening.asksHelp then some .help else none
    | none => none
  | [] => none

end LeafPaths.Command
