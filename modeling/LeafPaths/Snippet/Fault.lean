import LeafPaths.Cst

/-!
Why a snippet is refused, and where.
-/

namespace LeafPaths

inductive Complaint where
  /-- A statement of the second version of the language: `print` or `exec`. -/
  | outdated (keyword : String)
  | emptyBlock
  | indented
  | dedented
  /-- A token of this kind is not there. -/
  | missing (kind : String)
  | endOfInput
  /-- The text, shortened, that has no place in the grammar. -/
  | unexpected (quoted : String)
  | invalid
  deriving DecidableEq, Repr

def Complaint.message : Complaint → String
  | .outdated keyword => "`" ++ keyword ++ "` statement is Python 2 syntax"
  | .emptyBlock => "expected an indented block"
  | .indented => "unexpected indent"
  | .dedented => "unindent does not match any outer indentation level"
  | .missing kind => "missing `" ++ kind ++ "`"
  | .endOfInput => "unexpected end of input"
  | .unexpected quoted => "unexpected `" ++ quoted ++ "`"
  | .invalid => "invalid syntax"

/-- A complaint at a line and a column, both counted from 1, the column in bytes. -/
structure Fault where
  line : Nat
  column : Nat
  complaint : Complaint
  deriving DecidableEq, Repr

namespace Fault

/-- The complaint about a node, where the node begins. -/
def on (t : Cst) (complaint : Complaint) : Fault :=
  ⟨t.info.row + 1, t.info.column + 1, complaint⟩

def describe (f : Fault) : String :=
  f.complaint.message ++ " (line " ++ toString f.line ++ ", column " ++ toString f.column ++ ")"

def message (f : Fault) : String := "could not parse code: " ++ f.describe

end Fault
end LeafPaths
