import LeafPaths.Ast

/-!
The nodes of a tree that carry a value, in the order of the text.
-/

namespace LeafPaths.Ast

/-- Visits the nodes `pending` and all below them, each before its children; at most `steps`
nodes are visited. -/
def visit (t : Ast) : (steps : Nat) → (pending : List Nat) → List Nat
  | 0, _ => []
  | _, [] => []
  | steps + 1, id :: pending =>
    let later := t.visit steps (t.children id ++ pending)
    if (t.value? id).isSome then id :: later else later

/-- The numbers of the nodes with a value, in pre-order. -/
def leaves (t : Ast) : List Nat := t.visit t.size [root]

end LeafPaths.Ast
