import LeafPaths.Cst.Table
import LeafPaths.Json.Reader
import LeafPaths.Snippet

/-!
Catalogues of syntax trees: a JSON record that gives the table of the tree of each text it knows.
A row of a table is a list of the parent's row or -1, the kind, the flags, the first byte, the byte
after the last, the row and the column of the start, and the field, if the node has one.
-/

namespace LeafPaths

abbrev Catalog := List (String × Cst)

namespace Catalog

open Json (Input Reader)

/-- A row number, or -1 for none. -/
def readParent : Reader (Option Nat) := fun _ =>
  Json.readAs fun
    | .number (.whole n) => if n < 0 then some none else some (some n.toNat)
    | _ => none

/-- The field at the end of a row, if it has one, and the end of the row. -/
def readField (depth : Nat) (input : Input) : Except Json.Fault (Option String × Input) := do
  match ← Json.nextItem false input with
  | .closed rest => .ok (none, rest)
  | .part input =>
    let (field, rest) ← Json.readText depth input
    let rest ← Json.closeList rest
    .ok (some field, rest)

def readColumns (depth : Nat) (input : Input) : Except Json.Fault (Cst.Row × Input) := do
  let (parent, rest) ← Json.readItem true readParent depth input
  let (kind, rest) ← Json.readItem false Json.readText depth rest
  let (flags, rest) ← Json.readItem false Json.readSize depth rest
  let (firstByte, rest) ← Json.readItem false Json.readSize depth rest
  let (endByte, rest) ← Json.readItem false Json.readSize depth rest
  let (row, rest) ← Json.readItem false Json.readSize depth rest
  let (column, rest) ← Json.readItem false Json.readSize depth rest
  let (field, rest) ← readField depth rest
  .ok (.ofColumns parent kind flags.toNat firstByte.toNat endByte.toNat row.toNat column.toNat
    field, rest)

def readRow : Reader Cst.Row := fun depth input =>
  match input.skipBlanks with
  | .char '[' :: rest => readColumns depth rest
  | _ => Json.refuse input

def readTree : Reader Cst := fun depth input =>
  match Json.readList readRow depth input with
  | .error fault => .error fault
  | .ok (rows, rest) =>
    match Cst.ofRows? rows with
    | some t => .ok (t, rest)
    | none => .error .mismatched

def readTrees : Reader Catalog := fun depth input =>
  match input.skipBlanks with
  | .char '\x7b' :: rest =>
    Json.allMembers Json.Quoted.read
      (fun code known => Json.afterColon fun input =>
        (readTree depth input).map fun found => ((code, found.1) :: known, found.2)) [] rest
  | _ => Json.refuse input

def read (bytes : ByteArray) : Except Json.Fault Catalog := Json.readDocument readTrees (.ofBytes bytes)

/-- A module of which nothing is known but that it is in error. -/
def unknown : Cst :=
  .node { (default : Cst.Info) with kind := "module", named := true, hasError := true } []

/-- The grammar that knows the texts of a catalogue. -/
def grammar (known : Catalog) : Grammar := fun code => (known.lookup code).getD unknown

end Catalog
end LeafPaths
