import LeafPaths.Cst

/-!
A concrete syntax tree as a table: one row for each node, in pre-order, with the number of the
row that holds its parent.
-/

namespace LeafPaths.Cst

structure Row where
  /-- `none` for the root. -/
  parent : Option Nat
  info : Info
  deriving Repr, Inhabited

/-- A row's columns as they are stored: the five flags of a node are one number. -/
def Row.ofColumns (parent : Option Nat) (kind : String) (flags firstByte endByte row column : Nat)
    (field : Option String) : Row :=
  { parent
    info :=
      { kind, firstByte, endByte, row, column, field
        named := flags.testBit 0
        extra := flags.testBit 1
        missing := flags.testBit 2
        erroneous := flags.testBit 3
        hasError := flags.testBit 4 } }

/-- Adds the node of row `number` in front of its later siblings. Slot `i` of `slots` holds the
children of row `i` that were met so far, and the last slot those of no row. -/
def place (number : Nat) (row : Row) (slots : Array (List Cst)) : Array (List Cst) :=
  let self := node row.info (slots.getD number [])
  slots.modify (row.parent.getD (slots.size - 1)) (self :: ·)

/-- The tree of a table, whose first row without a parent is the root. -/
def ofRows? (rows : List Row) : Option Cst :=
  let slots := rows.zipIdx.foldr (fun entry slots => place entry.2 entry.1 slots)
    (Array.replicate (rows.length + 1) [])
  (slots.getD rows.length []).head?

end LeafPaths.Cst
