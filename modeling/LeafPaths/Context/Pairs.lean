import LeafPaths.Ast.Route
import LeafPaths.Context
import LeafPaths.Stream

/-!
The contexts between the nodes of a list, for every pair of positions in ascending order. They
are found one at a time: a `Pairs` stands at the pair that is to be tried next.
-/

namespace LeafPaths

/-- The context of two nodes that carry values and have a path within the limits. -/
def Ast.context? (t : Ast) (limits : Limits) (start finish : Nat) : Option Context :=
  match t.path? limits start finish, t.value? start, t.value? finish with
  | some path, some a, some b => some ⟨a, path.text, b⟩
  | _, _, _ => none

/-- A pair of positions in a list of nodes, or one past the end of a row of pairs. -/
structure Pairs where
  nodes : Array Nat
  row : Nat
  column : Nat
  row_lt_column : row < column

namespace Pairs

/-- All pairs of positions in a list. -/
def of (nodes : List Nat) : Pairs := ⟨nodes.toArray, 0, 1, Nat.zero_lt_one⟩

/-- The next pair of the row. -/
def advance (pairs : Pairs) : Pairs :=
  ⟨pairs.nodes, pairs.row, pairs.column + 1, Nat.lt_succ_of_lt pairs.row_lt_column⟩

/-- The first pair of the next row. -/
def nextRow (pairs : Pairs) : Pairs :=
  ⟨pairs.nodes, pairs.row + 1, pairs.row + 2, Nat.lt_succ_self _⟩

/-- The next context, in the order of the pairs. -/
def next (t : Ast) (limits : Limits) (pairs : Pairs) : Option Context × Pairs :=
  if _ : pairs.row + 1 < pairs.nodes.size then
    if h : pairs.column < pairs.nodes.size then
      have := pairs.row_lt_column
      match t.context? limits pairs.nodes[pairs.row] pairs.nodes[pairs.column] with
      | some c => (some c, pairs.advance)
      | none => next t limits pairs.advance
    else next t limits pairs.nextRow
  else (none, pairs)
termination_by (pairs.nodes.size - pairs.row, pairs.nodes.size - pairs.column)
decreasing_by
  · apply Prod.Lex.right
    simp only [advance]
    omega
  · apply Prod.Lex.left
    simp only [nextRow]
    omega

/-- How many pairs there are to try at most. -/
def count (pairs : Pairs) : Nat := pairs.nodes.size * pairs.nodes.size

/-- All contexts that are left. -/
def rest (t : Ast) (limits : Limits) (pairs : Pairs) : List Context :=
  (Pull.take (next t limits) pairs.count pairs).1

end Pairs
end LeafPaths
