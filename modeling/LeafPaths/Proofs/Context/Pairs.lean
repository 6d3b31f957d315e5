import LeafPaths.Context.Pairs
import LeafPaths.Proofs.Stream

/-!
The contexts that a `Pairs` has still to hand out are those of the pairs of positions from its own
on, in lexicographic order. Trying pairs and changing rows keeps to this list.
-/

namespace LeafPaths

def rowPairs (n i : Nat) : List (Nat × Nat) :=
  ((List.range n).filter fun j => i < j).map fun j => (i, j)

def positionPairs (n : Nat) : List (Nat × Nat) := (List.range n).flatMap (rowPairs n)

/-- Each element of a list with each that comes later, in lexicographic order of the positions. -/
def orderedPairs : List α → List (α × α)
  | [] => []
  | a :: later => later.map (fun b => (a, b)) ++ orderedPairs later

theorem filter_lt_range (n i : Nat) :
    ((List.range n).filter fun j => i < j) = List.range' (i + 1) (n - (i + 1)) := by
  induction n with
  | zero => simp
  | succ n ih =>
    rw [List.range_succ, List.filter_append, ih]
    by_cases before : i < n
    · have longer : n + 1 - (i + 1) = n - (i + 1) + 1 := by omega
      have last : i + 1 + (n - (i + 1)) = n := by omega
      rw [longer, List.range'_1_concat, last]
      simp [before]
    · have none_left : n - (i + 1) = 0 ∧ n + 1 - (i + 1) = 0 := by omega
      simp [before, none_left]

theorem rowPairs_eq (n i : Nat) :
    rowPairs n i = (List.range' (i + 1) (n - (i + 1))).map fun j => (i, j) := by
  rw [rowPairs, filter_lt_range]

/-! ### Pairs of a list -/

theorem positionPairs_succ (n : Nat) :
    positionPairs (n + 1) =
      (List.range n).map (fun j => (0, j + 1)) ++
        (positionPairs n).map fun positions => (positions.1 + 1, positions.2 + 1) := by
  have first : rowPairs (n + 1) 0 = (List.range n).map fun j => (0, j + 1) := by
    rw [rowPairs_eq, List.range'_eq_map_range, List.map_map]
    apply List.map_congr_left
    intro j _
    simp [Nat.add_comm]
  have others : ∀ i, rowPairs (n + 1) (i + 1) =
      (rowPairs n i).map fun positions => (positions.1 + 1, positions.2 + 1) := by
    intro i
    rw [rowPairs_eq, rowPairs_eq, Nat.add_sub_add_right, List.range'_succ_left, List.map_map,
      List.map_map]
    rfl
  rw [positionPairs, List.range_succ_eq_map, List.flatMap_cons, List.flatMap_map, first,
    positionPairs, List.map_flatMap, funext others]

theorem map_getD_range {α : Type} (d : α) (as : List α) :
    (List.range as.length).map (fun j => as.getD j d) = as := by
  apply List.ext_getElem
  · simp
  · intro j _ inside
    simp [List.getD_eq_getElem?_getD, inside]

theorem map_positionPairs {α : Type} (d : α) (as : List α) :
    (positionPairs as.length).map (fun positions => (as.getD positions.1 d, as.getD positions.2 d)) =
      orderedPairs as := by
  induction as with
  | nil => rfl
  | cons a later ih =>
    rw [List.length_cons, positionPairs_succ, orderedPairs, List.map_append, List.map_map,
      List.map_map]
    congr 1
    conv => rhs; rw [← map_getD_range d later, List.map_map]
    rfl

variable {α β : Type}

theorem orderedPairs_map (f : α → β) (as : List α) :
    orderedPairs (as.map f) = (orderedPairs as).map fun ends => (f ends.1, f ends.2) := by
  induction as with
  | nil => rfl
  | cons a later ih =>
    rw [List.map_cons, orderedPairs, orderedPairs, ih, List.map_append, List.map_map, List.map_map]
    rfl

theorem orderedPairs_filter (p : α → Bool) (as : List α) :
    orderedPairs (as.filter p) = (orderedPairs as).filter fun ends => p ends.1 && p ends.2 := by
  induction as with
  | nil => rfl
  | cons a later ih =>
    rw [orderedPairs, List.filter_append, ← ih, List.filter_map, List.filter_cons]
    by_cases kept : p a
    · simp [kept, orderedPairs, Function.comp_def]
    · simp [kept, Function.comp_def]

theorem forall_mem_orderedPairs {R : α → α → Prop} {as : List α} :
    (∀ ends ∈ orderedPairs as, R ends.1 ends.2) ↔ as.Pairwise R := by
  induction as with
  | nil => simp [orderedPairs]
  | cons a later ih =>
    rw [orderedPairs, List.forall_mem_append, ih, List.forall_mem_map, List.pairwise_cons]

theorem mem_of_mem_orderedPairs {as : List α} {ends : α × α} (member : ends ∈ orderedPairs as) :
    ends.1 ∈ as ∧ ends.2 ∈ as := by
  induction as with
  | nil => cases member
  | cons a later ih =>
    rcases List.mem_append.mp member with here | there
    · obtain ⟨b, later, rfl⟩ := List.mem_map.mp here
      exact ⟨List.mem_cons_self, List.mem_cons_of_mem a later⟩
    · obtain ⟨first, second⟩ := ih there
      exact ⟨List.mem_cons_of_mem a first, List.mem_cons_of_mem a second⟩

theorem length_orderedPairs_le (as : List α) : (orderedPairs as).length ≤ as.length * as.length := by
  induction as with
  | nil => exact Nat.le_refl _
  | cons a later ih =>
    rw [orderedPairs, List.length_append, List.length_map, List.length_cons, Nat.succ_mul, Nat.mul_succ]
    omega

namespace Pairs

def ahead (pairs : Pairs) : List (Nat × Nat) :=
  (List.range' pairs.column (pairs.nodes.size - pairs.column)).map (fun j => (pairs.row, j)) ++
    (List.range' (pairs.row + 1) (pairs.nodes.size - (pairs.row + 1))).flatMap
      (rowPairs pairs.nodes.size)

def contextAt? (t : Ast) (limits : Limits) (nodes : Array Nat) (positions : Nat × Nat) :
    Option Context :=
  t.context? limits (nodes.getD positions.1 Ast.root) (nodes.getD positions.2 Ast.root)

def remaining (t : Ast) (limits : Limits) (pairs : Pairs) : List Context :=
  pairs.ahead.filterMap (contextAt? t limits pairs.nodes)

theorem ahead_of (nodes : List Nat) : (of nodes).ahead = positionPairs nodes.length := by
  rw [ahead, positionPairs]
  cases nodes with
  | nil => simp [of]
  | cons x xs =>
    rw [List.length_cons, List.range_eq_range', List.range'_succ, List.flatMap_cons, rowPairs_eq]
    simp [of]

theorem ahead_eq_nil {pairs : Pairs} (done : ¬ pairs.row + 1 < pairs.nodes.size) :
    pairs.ahead = [] := by
  have later := pairs.row_lt_column
  have beyond : pairs.nodes.size - pairs.column = 0 := by omega
  have last : pairs.nodes.size - (pairs.row + 1) = 0 := by omega
  simp [ahead, beyond, last]

theorem ahead_eq_cons {pairs : Pairs} (inside : pairs.column < pairs.nodes.size) :
    pairs.ahead = (pairs.row, pairs.column) :: pairs.advance.ahead := by
  have longer : pairs.nodes.size - pairs.column = pairs.nodes.size - (pairs.column + 1) + 1 := by
    omega
  rw [ahead, longer, List.range'_succ, List.map_cons, List.cons_append]
  rfl

theorem ahead_nextRow {pairs : Pairs} (more : pairs.row + 1 < pairs.nodes.size)
    (rowDone : ¬ pairs.column < pairs.nodes.size) : pairs.nextRow.ahead = pairs.ahead := by
  have beyond : pairs.nodes.size - pairs.column = 0 := by omega
  have longer : pairs.nodes.size - (pairs.row + 1) = pairs.nodes.size - (pairs.row + 1 + 1) + 1 := by
    omega
  rw [ahead, ahead, beyond, longer, List.range'_succ, List.flatMap_cons, rowPairs_eq]
  rfl

variable {t : Ast} {limits : Limits}

theorem remaining_of_inside {pairs : Pairs} (inside : pairs.column < pairs.nodes.size)
    (bound : pairs.row < pairs.nodes.size) :
    pairs.remaining t limits =
      (t.context? limits pairs.nodes[pairs.row] pairs.nodes[pairs.column]).toList ++
        pairs.advance.remaining t limits := by
  have here : contextAt? t limits pairs.nodes (pairs.row, pairs.column) =
      t.context? limits pairs.nodes[pairs.row] pairs.nodes[pairs.column] := by
    simp [contextAt?, Array.getD, inside, bound]
  rw [remaining, ahead_eq_cons inside, List.filterMap_cons, here, remaining]
  cases t.context? limits pairs.nodes[pairs.row] pairs.nodes[pairs.column] <;> rfl

/-- Each pull hands out the context that comes first, whatever pairs and rows it passes. -/
theorem enumerates_next (t : Ast) (limits : Limits) :
    Pull.Enumerates (next t limits) (remaining t limits) := by
  intro pairs
  fun_induction next t limits pairs with
  | case1 pairs more inside later c found =>
    rw [remaining_of_inside inside (Nat.lt_of_succ_lt more), found]
    exact ⟨rfl, rfl⟩
  | case2 pairs more inside later missing ih =>
    rw [remaining_of_inside inside (Nat.lt_of_succ_lt more), missing]
    exact ih
  | case3 pairs more rowDone ih =>
    have same : pairs.nextRow.remaining t limits = pairs.remaining t limits := by
      rw [remaining, ahead_nextRow more rowDone, remaining]
      rfl
    rw [same] at ih
    exact ih
  | case4 pairs done =>
    rw [remaining, ahead_eq_nil done]
    exact ⟨rfl, rfl⟩

/-! ### All contexts of a list of nodes -/

theorem remaining_of (nodes : List Nat) :
    (of nodes).remaining t limits =
      (orderedPairs nodes).filterMap fun ends => t.context? limits ends.1 ends.2 := by
  rw [remaining, ahead_of, ← map_positionPairs Ast.root nodes, List.filterMap_map]
  apply congrFun
  apply congrArg
  funext positions
  simp [contextAt?, of, Array.getD_eq_getD_getElem?, List.getD_eq_getElem?_getD]

theorem rest_of (nodes : List Nat) :
    (of nodes).rest t limits =
      (orderedPairs nodes).filterMap fun ends => t.context? limits ends.1 ends.2 := by
  have enough : ((of nodes).remaining t limits).length ≤ (of nodes).count := by
    rw [remaining_of]
    exact Nat.le_trans (List.length_filterMap_le _ _) (length_orderedPairs_le nodes)
  rw [rest, ((enumerates_next t limits).take _ _).1, List.take_of_length_le enough, remaining_of]

end Pairs
end LeafPaths
