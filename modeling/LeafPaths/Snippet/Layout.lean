import LeafPaths.Cst.Search
import LeafPaths.Snippet.Fault

/-!
What a lenient grammar lets through and the language refuses: outdated statements, blocks without
a statement, and statements that are not aligned with the others of their block.
-/

namespace LeafPaths.Cst

/-- The first statement of some siblings, `before` being in front of them, that does not begin in
`column`; where none is given, the first statement gives it. One right after a `;` shares a line
and is passed over. -/
def checkColumns? : (column : Option Nat) → (before : Option Cst) → List Cst → Option Fault
  | _, _, [] => none
  | column, before, c :: later =>
    if c.kept && !before.any (·.kind == ";") then
      match column with
      | none => checkColumns? (some c.info.column) (some c) later
      | some column =>
        if column < c.info.column then some (.on c .indented)
        else if c.info.column < column then some (.on c .dedented)
        else checkColumns? (some column) (some c) later
    else checkColumns? column (some c) later

/-- What is wrong with the layout of a node itself. -/
def layoutFault? (t : Cst) : Option Fault :=
  if t.kind = "print_statement" then some (.on t (.outdated "print"))
  else if t.kind = "exec_statement" then some (.on t (.outdated "exec"))
  else if t.kind = "module" then checkColumns? (some 0) none t.children
  else if t.kind = "block" then
    if t.info.firstByte = t.info.endByte ∨ t.children.all (!·.kept) then some (.on t .emptyBlock)
    else checkColumns? none none t.children
  else none

/-- The first fault of layout at or below a node, in pre-order over named nodes. -/
def checkLayout? (t : Cst) : Option Fault := search layoutFault? (·.named) [t]

end LeafPaths.Cst
