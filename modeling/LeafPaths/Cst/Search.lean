import LeafPaths.Cst

/-!
Searching a tree with a stack of nodes that are still to be looked at. The nodes come in pre-order;
from a node the search goes on to some of its children only.
-/

namespace LeafPaths.Cst

theorem sizeAll_append (before after : List Cst) :
    sizeAll (before ++ after) = sizeAll before + sizeAll after := by
  induction before with
  | nil => simp [sizeAll]
  | cons c before ih => simp [sizeAll, ih, Nat.add_assoc]

theorem sizeAll_filter_le (enters : Cst → Bool) (children : List Cst) :
    sizeAll (children.filter enters) ≤ sizeAll children := by
  induction children with
  | nil => exact Nat.le_refl _
  | cons c later ih =>
    rw [List.filter_cons]
    split
    · simp only [sizeAll]
      omega
    · simp only [sizeAll]
      omega

theorem sizeAll_children_lt (t : Cst) : sizeAll t.children < t.size := by
  cases t with
  | node info children => exact Nat.lt_succ_self _

/-- What `look` sees first. A node that is taken from the stack leaves the children there that
`enters` lets in, the first of them on top. -/
def search (look : Cst → Option α) (enters : Cst → Bool) : (stack : List Cst) → Option α
  | [] => none
  | t :: stack =>
    match look t with
    | some seen => some seen
    | none => search look enters (t.children.filter enters ++ stack)
termination_by stack => sizeAll stack
decreasing_by
  have below := sizeAll_children_lt t
  have fewer := sizeAll_filter_le enters t.children
  simp only [sizeAll, sizeAll_append]
  omega

end LeafPaths.Cst
