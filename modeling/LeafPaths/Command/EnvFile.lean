import LeafPaths.Text.Alphanumeric
import LeafPaths.Text.Blank

/-!
Files that set variables, one `NAME=value` to a line. Values may be quoted, go over several lines
within quotes, and refer to other variables. A line that makes no sense ends the reading; what was
set before stays.
-/

namespace LeafPaths.EnvFile

/-! ### Lines -/

/-- Where a line stands with respect to quotes. -/
inductive Quoting where
  | outside
  /-- After a blank, where a comment can begin. -/
  | blank
  | escaped
  /-- Within double quotes. -/
  | weak
  | weakEscaped
  /-- Within single quotes. -/
  | strong
  | strongEscaped
  deriving DecidableEq, Repr

def Quoting.open (q : Quoting) (c : Char) : Quoting :=
  if c = '\\' then .escaped
  else if c = '"' then .weak
  else if c = '\'' then .strong
  else if q = .outside && Text.isBlank c && c ≠ '\n' && c ≠ '\r' then .blank
  else .outside

def Quoting.next (q : Quoting) (c : Char) : Quoting :=
  match q with
  | .outside | .blank => q.open c
  | .escaped => .outside
  | .weak => if c = '\\' then .weakEscaped else if c = '"' then .outside else .weak
  | .weakEscaped => .weak
  | .strong => if c = '\\' then .strongEscaped else if c = '\'' then .outside else .strong
  | .strongEscaped => .strong

/-- The characters of a line up to a comment, and where the line ends; `none` in a comment. -/
def scan : Quoting → List Char → List Char × Option Quoting
  | q, [] => ([], some q)
  | q, c :: cs =>
    if q = .blank ∧ c = '#' then ([], none)
    else
      let rest := scan (q.next c) cs
      (c :: rest.1, rest.2)

/-- The lines of a text, each with the line feed that ends it. -/
def physicalLines : List Char → List (List Char)
  | [] => []
  | c :: cs =>
    if c = '\n' then ['\n'] :: physicalLines cs
    else
      match physicalLines cs with
      | [] => [[c]]
      | line :: lines => (c :: line) :: lines

/-- The line without the line feed that ends it, and a carriage return before that. -/
def dropLineEnd (line : List Char) : List Char :=
  match line.reverse with
  | '\n' :: '\r' :: cs => cs.reverse
  | '\n' :: cs => cs.reverse
  | _ => line

/-- Puts lines together until none ends within quotes or after a blank. `none` stands for a text
that ends so. A line that begins with a comment drops what it should have continued. -/
def logicalLines : Quoting → (before : List Char) → List (List Char) → List (Option (List Char))
  | .outside, _, [] => []
  | _, _, [] => [none]
  | q, before, line :: lines =>
    let whole := before ++ line
    if (Text.trimStart whole).head? = some '#' then some [] :: logicalLines .outside [] lines
    else
      match scan q line with
      | (kept, none) => some (before ++ kept) :: logicalLines .outside [] lines
      | (_, some .outside) => some (dropLineEnd whole) :: logicalLines .outside [] lines
      | (_, some q) => logicalLines q whole lines

/-! ### Values -/

/-- How the next character of a value is taken. -/
inductive Mode where
  | text
  | escaped
  /-- Within single quotes. -/
  | strong
  /-- After a blank: only a comment may follow. -/
  | ending
  /-- In the name of a variable. -/
  | variableName (chars : List Char)
  /-- In such a name between braces. -/
  | braced (chars : List Char)
  deriving DecidableEq, Repr

/-- The mode after a character of plain text, whether it is within double quotes after it, and
whether it is part of the value. -/
def plain (weak : Bool) (c : Char) : Mode × Bool × List Char :=
  if c = '$' then (.variableName [], weak, [])
  else if c = '\\' then (.escaped, weak, [])
  else if c = '"' then (.text, !weak, [])
  else if weak then (.text, weak, [c])
  else if c = '\'' then (.strong, weak, [])
  else if c = ' ' ∨ c = '\t' then (.ending, weak, [])
  else (.text, weak, [c])

/-- The value that is spelled, names of variables being replaced by what `lookup` gives; `none`
when the spelling is wrong. -/
def readValue (lookup : String → String) : (weak : Bool) → Mode → List Char → Option (List Char)
  | weak, .variableName chars, [] =>
    if weak then none else some (lookup (String.ofList chars)).toList
  | _, .strong, [] | _, .braced _, [] => none
  | weak, _, [] => if weak then none else some []
  | weak, .text, c :: cs =>
    let step := plain weak c
    (readValue lookup step.2.1 step.1 cs).map (step.2.2 ++ ·)
  | weak, .escaped, c :: cs =>
    if c = 'n' then (readValue lookup weak .text cs).map ('\n' :: ·)
    else if c ∈ ['\\', '\'', '"', '$', ' '] then (readValue lookup weak .text cs).map (c :: ·)
    else none
  | weak, .strong, c :: cs =>
    if c = '\'' then readValue lookup weak .text cs
    else (readValue lookup weak .strong cs).map (c :: ·)
  | weak, .ending, c :: cs =>
    if c = ' ' ∨ c = '\t' then readValue lookup weak .ending cs
    else if c = '#' ∧ !weak then some []
    else none
  | weak, .variableName chars, c :: cs =>
    if Text.isAlphanumeric c then readValue lookup weak (.variableName (chars ++ [c])) cs
    else if c = '\x7b' ∧ chars.isEmpty then readValue lookup weak (.braced []) cs
    else
      let value := (lookup (String.ofList chars)).toList
      if c = '$' then (readValue lookup weak (.variableName []) cs).map (value ++ ·)
      else (readValue lookup weak .text cs).map fun rest => value ++ c :: rest
  | weak, .braced chars, c :: cs =>
    if c = '\x7d' then
      (readValue lookup weak .text cs).map ((lookup (String.ofList chars)).toList ++ ·)
    else readValue lookup weak (.braced (chars ++ [c])) cs

/-! ### Settings of variables -/

def isNameStart (c : Char) : Bool := c.isAlpha || c = '_'

def isNamePart (c : Char) : Bool := c.isAlphanum || c = '_' || c = '.'

def readName? (line : List Char) : Option (String × List Char) :=
  if line.head?.any isNameStart then
    some (String.ofList (line.takeWhile isNamePart), Text.trimStart (line.dropWhile isNamePart))
  else none

/-- A name and what follows its equals sign. The word `export` may stand before it. -/
def readHead? (line : List Char) : Option (String × List Char) :=
  match readName? line with
  | none => none
  | some (n, '=' :: rest) => some (n, Text.trimStart rest)
  | some (n, rest) =>
    if n = "export" then
      match readName? rest with
      | some (n, '=' :: rest) => some (n, Text.trimStart rest)
      | _ => none
    else none

inductive Line where
  | blank
  | assignment (variableName value : String)
  | wrong
  deriving DecidableEq, Repr

def readLine (lookup : String → String) (line : List Char) : Line :=
  let line := Text.trimStart (Text.trimEnd line)
  if line.isEmpty || line.head? = some '#' then .blank
  else
    match readHead? line with
    | none => .wrong
    | some (n, rest) =>
      if rest.isEmpty || rest.head? = some '#' then .assignment n ""
      else
        match readValue lookup false .text rest with
        | some value => .assignment n (String.ofList value)
        | none => .wrong

abbrev Environment := List (String × String)

/-- The variables of a block of `NAME=value` entries, each with a zero byte behind it. -/
def ofBlock (block : String) : Environment :=
  (block.splitOn "\x00").filterMap fun entry =>
    match entry.splitOn "=" with
    | n :: value :: more => some (n, "=".intercalate (value :: more))
    | _ => none

/-- Sets the variables of the lines that are not set yet. -/
def setAll : Environment → List (Option (List Char)) → Environment
  | env, [] => env
  | env, none :: _ => env
  | env, some line :: lines =>
    match readLine (fun n => (env.lookup n).getD "") line with
    | .blank => setAll env lines
    | .assignment n value =>
      if (env.lookup n).isSome then setAll env lines
      else setAll (env ++ [(n, value)]) lines
    | .wrong => env

def dropMark : List Char → List Char
  | '\ufeff' :: cs => cs
  | cs => cs

/-- The environment after a file was read; variables that were set stay as they are. -/
def load (env : Environment) (text : String) : Environment :=
  setAll env (logicalLines .outside [] (physicalLines (dropMark text.toList)))

end LeafPaths.EnvFile
