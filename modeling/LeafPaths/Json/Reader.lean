import LeafPaths.Json.Numeral
import LeafPaths.Json.Quoted

/-!
Reading documents of a known shape. Faults are met in the order of the text: a value of the wrong
shape is reported where it stands, before anything after it is looked at. Lists and records may be
nested to a limit; values that are not wanted are passed over without one.
-/

namespace LeafPaths.Json

/-- Reads a value that may nest lists and records so many levels deep. -/
abbrev Reader (α : Type) := (depth : Nat) → Input → Result α

/-! ### Values without parts -/

inductive Scalar where
  | null
  | bool (b : Bool)
  | number (n : Numeral)
  | text (s : String)
  deriving DecidableEq, Repr

/-- The rest of a word of which the first letter was seen. -/
def word (letters : String) (scalar : Scalar) (rest : Input) : Result Scalar :=
  (Input.expect letters.toList rest).map fun rest => (scalar, rest)

def readScalar (p : Piece) (rest : Input) : Result Scalar :=
  if p = .char 'n' then word "ull" .null rest
  else if p = .char 't' then word "rue" (.bool true) rest
  else if p = .char 'f' then word "alse" (.bool false) rest
  else if p = .char '"' then (Quoted.read rest).map fun found => (.text found.1, found.2)
  else if p = .char '-' ∨ Numeral.isDigit p then
    (Numeral.read true (p :: rest)).map fun found => (.number found.1, found.2)
  else .error .malformed

def skipScalar (p : Piece) (rest : Input) : Result Unit :=
  if p = .char '"' then Quoted.skip rest
  else if p = .char '-' ∨ Numeral.isDigit p then
    (Numeral.read false (p :: rest)).map fun found => ((), found.2)
  else (readScalar p rest).map fun found => ((), found.2)

/-- Reads a scalar that `accept` takes. A list or a record is refused unread. -/
def readAs (accept : Scalar → Option α) (input : Input) : Result α :=
  match input.skipBlanks with
  | [] => .error .ended
  | p :: rest =>
    if p = .char '[' ∨ p = .char '\x7b' then .error .mismatched
    else
      match readScalar p rest with
      | .error fault => .error fault
      | .ok (scalar, rest) =>
        match accept scalar with
        | some a => .ok (a, rest)
        | none => .error .mismatched

/-- The fault of a value where one of another shape is wanted. -/
def refuse (input : Input) : Result α := readAs (fun _ => none) input

def readText : Reader String := fun _ =>
  readAs fun
    | .text s => some s
    | _ => none

/-- A whole number from 0 up, of 64 bits. -/
def readSize : Reader UInt64 := fun _ =>
  readAs fun
    | .number (.whole n) => if 0 ≤ n then some (.ofNat n.toNat) else none
    | _ => none

/-! ### Lists and records -/

/-- Where a list or a record stands before its next part. -/
inductive Turn where
  | closed (rest : Input)
  | part (input : Input)

/-- Goes on to the next item of a list; `first` tells that none was met. -/
def nextItem (first : Bool) (input : Input) : Except Fault Turn :=
  match input.skipBlanks with
  | [] => .error .ended
  | p :: rest =>
    if p = .char ']' then .ok (.closed rest)
    else if first then .ok (.part (p :: rest))
    else if p = .char ',' then
      match Input.skipBlanks rest with
      | [] => .error .ended
      | q :: rest => if q = .char ']' then .error .malformed else .ok (.part (q :: rest))
    else .error .malformed

/-- Goes on to the next member of a record, after the quote that opens its name. -/
def nextMember (first : Bool) (input : Input) : Except Fault Turn :=
  match input.skipBlanks with
  | [] => .error .ended
  | p :: rest =>
    if p = .char '\x7d' then .ok (.closed rest)
    else if first then
      if p = .char '"' then .ok (.part rest) else .error .malformed
    else if p = .char ',' then
      match Input.skipBlanks rest with
      | [] => .error .ended
      | q :: rest => if q = .char '"' then .ok (.part rest) else .error .malformed
    else .error .malformed

def afterColon (value : Input → Result α) (input : Input) : Result α :=
  match input.skipBlanks with
  | [] => .error .ended
  | p :: rest => if p = .char ':' then value rest else .error .malformed

/-- The items up to the bracket that closes the list. Each takes a piece from `fuel`. -/
def items (item : Input → Result α) : (fuel : Input) → (first : Bool) → Input → Result (List α)
  | [], _, _ => .error .ended
  | _ :: fuel, first, input =>
    match nextItem first input with
    | .error fault => .error fault
    | .ok (.closed rest) => .ok ([], rest)
    | .ok (.part input) =>
      match item input with
      | .error fault => .error fault
      | .ok (a, rest) =>
        match items item fuel false rest with
        | .error fault => .error fault
        | .ok (as, rest) => .ok (a :: as, rest)

/-- Folds `member` over the members up to the brace that closes the record. It is given each name
and reads on from the closing quote of the name. Each member takes a piece from `fuel`. -/
def members (key : Input → Result κ) (member : κ → σ → Input → Result σ) :
    (fuel : Input) → (first : Bool) → σ → Input → Result σ
  | [], _, _, _ => .error .ended
  | _ :: fuel, first, s, input =>
    match nextMember first input with
    | .error fault => .error fault
    | .ok (.closed rest) => .ok (s, rest)
    | .ok (.part input) =>
      match key input with
      | .error fault => .error fault
      | .ok (k, rest) =>
        match member k s rest with
        | .error fault => .error fault
        | .ok (s, rest) => members key member fuel false s rest

/-- All items of a list. Each turn takes at least one piece of the input, which is fuel enough. -/
def allItems (item : Input → Result α) (input : Input) : Result (List α) :=
  items item input true input

def allMembers (key : Input → Result κ) (member : κ → σ → Input → Result σ) (s : σ)
    (input : Input) : Result σ :=
  members key member input true s input

/-! ### Values that are not wanted -/

/-- Passes over a value. Each level of nesting takes a piece from `fuel`. -/
def skipValue : (fuel : Input) → Input → Result Unit
  | [], _ => .error .ended
  | _ :: fuel, input =>
    match input.skipBlanks with
    | [] => .error .ended
    | p :: rest =>
      if p = .char '[' then
        (allItems (skipValue fuel) rest).map fun found => ((), found.2)
      else if p = .char '\x7b' then
        allMembers Quoted.skip (fun _ _ => afterColon (skipValue fuel)) () rest
      else skipScalar p rest

/-- A value of which only a number or a text is of use. -/
inductive Atom where
  | scalar (s : Scalar)
  | compound
  deriving DecidableEq, Repr

def readAny : Reader Atom
  | depth, input =>
    match input.skipBlanks with
    | [] => .error .ended
    | p :: rest =>
      if p = .char '[' then
        match depth with
        | 0 => .error .malformed
        | depth + 1 => (allItems (readAny depth) rest).map fun found => (.compound, found.2)
      else if p = .char '\x7b' then
        match depth with
        | 0 => .error .malformed
        | depth + 1 =>
          (allMembers Quoted.read (fun _ _ => afterColon (readAny depth)) .compound rest).map
            fun found => (.compound, found.2)
      else (readScalar p rest).map fun found => (.scalar found.1, found.2)

/-! ### Shapes -/

def readList (item : Reader α) : Reader (List α) := fun depth input =>
  match input.skipBlanks with
  | .char '[' :: rest =>
    match depth with
    | 0 => .error .malformed
    | depth + 1 => allItems (item depth) rest
  | _ => refuse input

structure Field (α : Type) where
  label : String
  read : Reader α

/-- Reads the value of a field that must not have been met before. -/
def Field.fill (f : Field α) (depth : Nat) (met : Option α) (input : Input) : Result α :=
  match met with
  | some _ => .error .mismatched
  | none => afterColon (f.read depth) input

def readItem (first : Bool) (item : Reader α) : Reader α := fun depth input =>
  match nextItem first input with
  | .error fault => .error fault
  | .ok (.closed _) => .error .mismatched
  | .ok (.part input) => item depth input

def closeList (input : Input) : Except Fault Input :=
  match input.skipBlanks with
  | [] => .error .ended
  | p :: rest => if p = .char ']' then .ok rest else .error .malformed

/-- What is known of a record while its members are read. -/
structure Draft (α β γ : Type) where
  first : Option α
  second : Option β
  third : Option γ

section
variable (a : Field α) (b : Field β) (c : Field γ)

/-- A member of a record of three fields; one of another name is passed over. -/
def readMember (depth : Nat) (key : String) (s : Draft α β γ) (input : Input) :
    Result (Draft α β γ) :=
  if key = a.label then
    (a.fill depth s.first input).map fun found => ({ s with first := some found.1 }, found.2)
  else if key = b.label then
    (b.fill depth s.second input).map fun found => ({ s with second := some found.1 }, found.2)
  else if key = c.label then
    (c.fill depth s.third input).map fun found => ({ s with third := some found.1 }, found.2)
  else (afterColon (skipValue input) input).map fun found => (s, found.2)

/-- The values of three fields as the items of a list. -/
def readRow (depth : Nat) (input : Input) : Except Fault ((α × β × γ) × Input) := do
  let (x, rest) ← readItem true a.read depth input
  let (y, rest) ← readItem false b.read depth rest
  let (z, rest) ← readItem false c.read depth rest
  let rest ← closeList rest
  .ok ((x, y, z), rest)

/-- A record of three fields, in any order; or a list of their values, in this order. -/
def readRecord : Reader (α × β × γ) := fun depth input =>
  match input.skipBlanks, depth with
  | .char '\x7b' :: _, 0 => .error .malformed
  | .char '\x7b' :: rest, depth + 1 =>
    match allMembers Quoted.read (readMember a b c depth) ⟨none, none, none⟩ rest with
    | .error fault => .error fault
    | .ok (⟨some x, some y, some z⟩, rest) => .ok ((x, y, z), rest)
    | .ok (_, _) => .error .mismatched
  | .char '[' :: _, 0 => .error .malformed
  | .char '[' :: rest, depth + 1 => readRow a b c depth rest
  | _, _ => refuse input

end

/-- Lists and records are nested at most so many levels deep. -/
def maxDepth : Nat := 127

def readDocument (value : Reader α) (input : Input) : Except Fault α :=
  match value maxDepth input with
  | .error fault => .error fault
  | .ok (a, rest) => if rest.skipBlanks.isEmpty then .ok a else .error .malformed

end LeafPaths.Json
