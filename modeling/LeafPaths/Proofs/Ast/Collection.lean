import LeafPaths.Proofs.Ast.Preorder

/-!
Collecting the leaves turn by turn. One turn visits the node that is next among the pending ones
and puts its children in its place, so the turns go through the nodes in pre-order; after as many
turns as there are nodes nothing is pending.
-/

namespace LeafPaths.Ast

structure Collection where
  /-- The nodes that are still to be visited with all below them, the next one first. -/
  pending : List Nat
  /-- The leaves that were met. -/
  found : List Nat
  deriving DecidableEq, Repr

namespace Collection

def start : Collection := ⟨[root], []⟩

def next? (t : Ast) : Collection → Option Collection
  | ⟨[], _⟩ => none
  | ⟨id :: pending, found⟩ =>
    some ⟨t.children id ++ pending, if (t.value? id).isSome then found ++ [id] else found⟩

/-- The collection after some turns, or after its last turn if there are fewer. -/
def run (t : Ast) : (turns : Nat) → Collection → Collection
  | 0, c => c
  | turns + 1, c =>
    match c.next? t with
    | some later => run t turns later
    | none => c

/-- The nodes that are still to be visited, each in its turn. -/
def forest (t : Ast) (c : Collection) : List Nat := c.pending.flatMap t.preorder

end Collection

/-- `x` comes before `y` in pre-order: it is an ancestor of it, or an earlier child of some node is
at or above `x` and a later one at or above `y`. -/
inductive Earlier (t : Ast) (x y : Nat) : Prop where
  | above (above : t.Above x y) (other : x ≠ y)
  | beside {p i j c d : Nat} (first : (t.children p)[i]? = some c)
      (second : (t.children p)[j]? = some d) (before : i < j) (above : t.Above c x)
      (above' : t.Above d y)

variable {t : Ast} {c later : Collection} {x : Nat}

namespace Arranged

variable (arranged : t.Arranged)
include arranged

theorem pairwise_preorder (x : Nat) : (t.preorder x).Pairwise t.Earlier := by
  induction x using arranged.induction_on_children with
  | step x ih =>
    rw [arranged.preorder_eq, List.pairwise_cons, List.pairwise_flatMap]
    refine ⟨?_, ih, ?_⟩
    · intro y member
      obtain ⟨c, child, below⟩ := List.mem_flatMap.mp member
      have above := arranged.mem_preorder_iff.mp below
      have larger := (arranged.lt_of_mem_children child).1
      have further := arranged.le_of_above above
      exact .above (.trans (.step (arranged.mem_children_iff.mp child) .here) above) (by omega)
    · apply List.pairwise_iff_getElem.mpr
      intro i j hi hj before y below z below'
      exact .beside (List.getElem?_eq_getElem hi) (List.getElem?_eq_getElem hj) before
        (arranged.mem_preorder_iff.mp below) (arranged.mem_preorder_iff.mp below')

/-! ### Turns -/

theorem forest_of_next? (turn : c.next? t = some later) : ∃ id, c.forest t = id :: later.forest t ∧
    later.found = c.found ++ [id].filter fun id => (t.value? id).isSome := by
  obtain ⟨pending, found⟩ := c
  cases pending with
  | nil => cases turn
  | cons id pending =>
    obtain rfl := Option.some.inj turn
    refine ⟨id, ?_, ?_⟩
    · rw [Collection.forest, List.flatMap_cons, arranged.preorder_eq, Collection.forest,
        List.flatMap_append, List.cons_append]
    · rw [List.filter_singleton]
      dsimp only
      split <;> simp [*]

theorem forest_eq_nil_iff : c.forest t = [] ↔ c.pending = [] := by
  rw [Collection.forest, List.flatMap_eq_nil_iff]
  constructor
  · intro empty
    apply List.eq_nil_iff_forall_not_mem.mpr
    intro id member
    have here := empty id member
    rw [arranged.preorder_eq] at here
    cases here
  · intro empty
    rw [empty]
    exact fun _ member => absurd member List.not_mem_nil

/-- Each turn visits one more node of the forest, in its order. -/
theorem run_eq (turns : Nat) : (c.run t turns).forest t = (c.forest t).drop turns ∧
    (c.run t turns).found =
      c.found ++ ((c.forest t).take turns).filter fun id => (t.value? id).isSome := by
  induction turns generalizing c with
  | zero => simp [Collection.run]
  | succ turns ih =>
    rw [Collection.run]
    split
    next later turn =>
      obtain ⟨id, visited, found⟩ := arranged.forest_of_next? turn
      obtain ⟨left, more⟩ := ih (c := later)
      rw [visited, List.drop_succ_cons, List.take_succ_cons]
      refine ⟨left, ?_⟩
      rw [more, found, List.append_assoc, ← List.filter_append, List.singleton_append]
    next ended =>
      have empty : c.forest t = [] := by
        apply arranged.forest_eq_nil_iff.mpr
        obtain ⟨pending, found⟩ := c
        cases pending with
        | nil => rfl
        | cons id pending => cases ended
      rw [empty]
      simp

end Arranged

/-- The collection ends after one turn for each node, and what it has found by then are the nodes
with a value, each once, in the order in which a recursion over the children meets them. -/
theorem leaves_collected_in_preorder (grown : t.Grown) :
    (∀ turns, (Collection.start.run t turns).pending = [] ↔ t.size ≤ turns) ∧
      (∀ turns, t.size ≤ turns → (Collection.start.run t turns).found = t.leaves) ∧
      t.leaves = (t.preorder root).filter (fun id => (t.value? id).isSome) ∧
      (∀ x, t.preorder x = x :: (t.children x).flatMap t.preorder) ∧
      (∀ x, x ∈ t.leaves ↔ (t.value? x).isSome) ∧
      t.leaves.Nodup ∧ t.leaves.Pairwise t.Earlier := by
  have arranged := grown.arranged
  have whole : Collection.start.forest t = t.preorder root := by
    rw [Collection.forest, Collection.start, List.flatMap_singleton]
  have length := arranged.length_preorder_root
  refine ⟨?_, ?_, arranged.leaves_eq_filter, arranged.preorder_eq, ?_, ?_, ?_⟩
  · intro turns
    rw [← arranged.forest_eq_nil_iff, (arranged.run_eq turns).1, whole, List.drop_eq_nil_iff,
      length]
  · intro turns enough
    rw [(arranged.run_eq turns).2, whole, List.take_of_length_le (by omega),
      arranged.leaves_eq_filter]
    rfl
  · intro x
    rw [arranged.leaves_eq_filter, List.mem_filter, and_iff_right_iff_imp]
    intro valued
    obtain ⟨value, found⟩ := Option.isSome_iff_exists.mp valued
    obtain ⟨n, present, -⟩ := Option.bind_eq_some_iff.mp found
    exact arranged.mem_preorder_root_iff.mpr (lt_size_of_node? present)
  · rw [arranged.leaves_eq_filter]
    exact (arranged.nodup_preorder root).filter _
  · rw [arranged.leaves_eq_filter]
    exact (arranged.pairwise_preorder root).filter _

def nestedTree : Ast :=
  ((((new "module" none).push 0 "call" none).push 0 "identifier" (some "c")).push 1 "string"
    (some "a")).push 3 "identifier" (some "b")

theorem leaves_collected_of_nestedTree : nestedTree.Grown ∧
    (Collection.start.run nestedTree 4).pending ≠ [] ∧
    Collection.start.run nestedTree 5 = ⟨[], [3, 4, 2]⟩ ∧ nestedTree.leaves = [3, 4, 2] := by
  have grown : nestedTree.Grown :=
    .push (.push (.push (.push (.new _ _) (by decide) _ _) (by decide) _ _) (by decide) _ _)
      (by decide) _ _
  obtain ⟨ends, found, -⟩ := leaves_collected_in_preorder grown
  have fifth : Collection.start.run nestedTree 5 = ⟨[], [3, 4, 2]⟩ := by decide
  refine ⟨grown, mt (ends 4).mp (by decide), fifth, ?_⟩
  rw [← found 5 (by decide), fifth]

end LeafPaths.Ast
