import Mathlib.Data.List.Nodup
import LeafPaths.Ast.Leaves
import LeafPaths.Proofs.Ast.Ancestry

/-!
The nodes at and below a node, each before its children and an earlier child's before a later
one's. Collecting the leaves with a list of pending nodes goes through them in this order, and the
number of steps that it is given is enough.
-/

namespace LeafPaths.Ast

variable {t : Ast} {x y : Nat}

def preorder (t : Ast) (id : Nat) : List Nat :=
  id :: (t.children id).flatMap fun child =>
    if _ : id < child ∧ child < t.size then preorder t child else []
termination_by t.size - id

namespace Arranged

variable (arranged : t.Arranged)
include arranged

/-- Induction from the children to their parent. -/
theorem induction_on_children {P : Nat → Prop}
    (step : ∀ x, (∀ c ∈ t.children x, P c) → P x) (x : Nat) : P x := by
  induction left : t.size - x using Nat.strongRecOn generalizing x with
  | ind n ih =>
    apply step
    intro c member
    obtain ⟨larger, present⟩ := arranged.lt_of_mem_children member
    exact ih (t.size - c) (by omega) c rfl

theorem preorder_eq (x : Nat) : t.preorder x = x :: (t.children x).flatMap t.preorder := by
  rw [preorder]
  congr 1
  apply List.flatMap_congr
  intro c member
  rw [dif_pos (arranged.lt_of_mem_children member)]

theorem mem_preorder_iff : y ∈ t.preorder x ↔ t.Above x y := by
  induction x using arranged.induction_on_children with
  | step x ih =>
    rw [arranged.preorder_eq, List.mem_cons, List.mem_flatMap]
    constructor
    · rintro (rfl | ⟨c, member, below⟩)
      · exact .here
      · exact .trans (.step (arranged.mem_children_iff.mp member) .here) ((ih c member).mp below)
    · intro above
      rcases above.eq_or_child with rfl | ⟨c, child, above⟩
      · exact Or.inl rfl
      · have member := arranged.mem_children_iff.mpr child
        exact Or.inr ⟨c, member, (ih c member).mpr above⟩

theorem nodup_preorder (x : Nat) : (t.preorder x).Nodup := by
  induction x using arranged.induction_on_children with
  | step x ih =>
    rw [arranged.preorder_eq, List.nodup_cons, List.nodup_flatMap]
    refine ⟨?_, ih, ?_⟩
    · intro member
      obtain ⟨c, child, below⟩ := List.mem_flatMap.mp member
      have larger := (arranged.lt_of_mem_children child).1
      have above := arranged.le_of_above (arranged.mem_preorder_iff.mp below)
      omega
    · -- Two children have the same depth, so no node is below both.
      apply (arranged.nodup_children x).imp_of_mem
      intro c d memberC memberD different y below below'
      apply different
      apply arranged.eq_of_depth (arranged.mem_preorder_iff.mp below)
        (arranged.mem_preorder_iff.mp below')
      rw [arranged.depth_of_parent (arranged.mem_children_iff.mp memberC),
        arranged.depth_of_parent (arranged.mem_children_iff.mp memberD)]

theorem mem_preorder_root_iff : y ∈ t.preorder root ↔ y < t.size := by
  rw [arranged.mem_preorder_iff]
  constructor
  · intro above
    cases above with
    | here => exact arranged.root_lt_size
    | step link _ => exact lt_size_of_parent? link
  · exact arranged.above_root

theorem length_preorder_root : (t.preorder root).length = t.size := by
  have all : (t.preorder root).Perm (List.range t.size) := by
    rw [List.perm_ext_iff_of_nodup (arranged.nodup_preorder root) List.nodup_range]
    intro y
    rw [arranged.mem_preorder_root_iff, List.mem_range]
  rw [all.length_eq, List.length_range]

/-! ### Leaves -/

/-- What is pending is the forest that is still to be visited. -/
theorem visit_eq_filter {steps : Nat} {pending : List Nat}
    (enough : (pending.flatMap t.preorder).length ≤ steps) :
    t.visit steps pending =
      (pending.flatMap t.preorder).filter fun id => (t.value? id).isSome := by
  induction steps generalizing pending with
  | zero =>
    have done := List.eq_nil_of_length_eq_zero (Nat.le_zero.mp enough)
    rw [visit, done, List.filter_nil]
  | succ steps ih =>
    cases pending with
    | nil => simp [visit]
    | cons id pending =>
      have forest : (id :: pending).flatMap t.preorder =
          id :: (t.children id ++ pending).flatMap t.preorder := by
        rw [List.flatMap_cons, arranged.preorder_eq, List.flatMap_append, List.cons_append]
      rw [forest, List.length_cons] at enough
      rw [visit, forest, List.filter_cons, ih (Nat.le_of_succ_le_succ enough)]

theorem leaves_eq_filter :
    t.leaves = (t.preorder root).filter fun id => (t.value? id).isSome := by
  have forest : [root].flatMap t.preorder = t.preorder root := by simp
  have enough : ([root].flatMap t.preorder).length ≤ t.size := by
    rw [forest]
    exact Nat.le_of_eq arranged.length_preorder_root
  rw [leaves, arranged.visit_eq_filter enough, forest]

end Arranged
end LeafPaths.Ast
