import Mathlib.Logic.Function.Iterate
import LeafPaths.Proofs.Ast.Growth
import LeafPaths.Proofs.Ast.Route

/-!
Following the parent links of a node. Nothing bounds the turns that this takes but the order of the
nodes: each parent has a smaller number, so the way ends at the root, after as many turns as the
node is deep. Two such ways, read from the root, have a beginning in common and then no node more.
-/

namespace LeafPaths.Ast

structure Tracing where
  /-- The node and the ancestors that were met, each followed by its parent. -/
  chain : List Nat
  /-- The parent of the last of them. -/
  above : Option Nat
  deriving DecidableEq, Repr

namespace Tracing

def start (t : Ast) (x : Nat) : Tracing := ⟨[x], t.parent? x⟩

/-- One turn. There is no turn after the root, nor one to a number that no node has. -/
def next (t : Ast) : Tracing → Tracing
  | ⟨chain, none⟩ => ⟨chain, none⟩
  | ⟨chain, some p⟩ =>
    match t.node? p with
    | some n => ⟨chain ++ [p], n.parent⟩
    | none => ⟨chain, some p⟩

def run (t : Ast) (x turns : Nat) : Tracing := (next t)^[turns] (start t x)

end Tracing

/-- `xs` leads from `x` to the root, over the nodes that `x` is below. -/
structure Pedigree (t : Ast) (x : Nat) (xs : List Nat) : Prop where
  starts : xs.head? = some x
  ends : xs.getLast? = some root
  parent : ∀ k a, xs[k]? = some a → t.parent? a = xs[k + 1]?
  decreasing : xs.Pairwise (· > ·)
  nodup : xs.Nodup
  present : ∀ a ∈ xs, a < t.size
  mem_iff : ∀ a, a ∈ xs ↔ Relation.ReflTransGen (fun p c => c ∈ t.children p) a x

variable {t : Ast} {a x y k top start finish : Nat} {xs up down : List Nat}

namespace Arranged

variable (arranged : t.Arranged)
include arranged

/-! ### Lineages from entry to entry -/

theorem lineage_root : t.lineage root = [root] := by
  rw [lineage, arranged.parent?_root]

theorem depth_root : t.depth root = 0 := by
  rw [depth, arranged.parent?_root]

theorem lineage_eq_concat (present : x < t.size) :
    ∃ xs, t.lineage x = xs ++ [root] ∧ t.depth x = xs.length := by
  obtain ⟨xs, climb⟩ := (arranged.above_root present).exists_climb
  refine ⟨xs, ?_, ?_⟩
  · rw [arranged.lineage_of_climb climb, arranged.lineage_root]
  · rw [arranged.depth_of_climb climb, arranged.depth_root, Nat.add_zero]

theorem getLast?_lineage (present : x < t.size) : (t.lineage x).getLast? = some root := by
  obtain ⟨xs, same, -⟩ := arranged.lineage_eq_concat present
  rw [same, List.getLast?_concat]

theorem length_lineage (present : x < t.size) : (t.lineage x).length = t.depth x + 1 := by
  obtain ⟨xs, same, deep⟩ := arranged.lineage_eq_concat present
  rw [same, deep, List.length_append, List.length_singleton]

theorem lt_size_of_above (above : t.Above a x) (present : x < t.size) : a < t.size :=
  Nat.lt_of_le_of_lt (arranged.le_of_above above) present

theorem lt_size_of_mem_lineage (present : x < t.size) (member : a ∈ t.lineage x) : a < t.size :=
  arranged.lt_size_of_above (arranged.mem_lineage_iff.mp member) present

theorem getElem?_zero_lineage : (t.lineage x)[0]? = some x := by
  rw [← List.head?_eq_getElem?]
  exact arranged.head?_lineage

theorem getElem?_one_lineage : (t.lineage x)[1]? = t.parent? x := by
  cases link : t.parent? x with
  | none =>
    rw [lineage, link]
    rfl
  | some p =>
    rw [arranged.lineage_of_parent link, List.getElem?_cons_succ]
    exact arranged.getElem?_zero_lineage

theorem parent?_of_getElem?_lineage (entry : (t.lineage x)[k]? = some a) :
    t.parent? a = (t.lineage x)[k + 1]? := by
  -- On the position: what follows the first entry is the lineage of the parent.
  induction k generalizing x with
  | zero =>
    rw [arranged.getElem?_zero_lineage] at entry
    obtain rfl := Option.some.inj entry
    exact arranged.getElem?_one_lineage.symm
  | succ k ih =>
    cases link : t.parent? x with
    | none =>
      rw [lineage, link] at entry
      cases entry
    | some p =>
      rw [arranged.lineage_of_parent link, List.getElem?_cons_succ] at entry ⊢
      exact ih entry

theorem decreasing_lineage (present : x < t.size) : (t.lineage x).Pairwise (· > ·) := by
  induction arranged.above_root present with
  | here =>
    rw [arranged.lineage_root]
    exact List.pairwise_singleton _ _
  | step link _ ih =>
    rw [arranged.lineage_of_parent link]
    refine List.pairwise_cons.mpr ⟨?_, ih (Nat.lt_trans (arranged.parent_lt link) present)⟩
    intro a member
    have higher := arranged.le_of_above (arranged.mem_lineage_iff.mp member)
    exact Nat.lt_of_le_of_lt higher (arranged.parent_lt link)

theorem above_of_reaches (reaches : Relation.ReflTransGen (fun p c => c ∈ t.children p) a x) :
    t.Above a x := by
  induction reaches with
  | refl => exact .here
  | tail _ child ih => exact .step (arranged.mem_children_iff.mp child) ih

theorem pedigree_lineage (present : x < t.size) : t.Pedigree x (t.lineage x) := by
  have decreasing := arranged.decreasing_lineage present
  refine ⟨arranged.head?_lineage, arranged.getLast?_lineage present, ?_, decreasing,
    decreasing.imp Nat.ne_of_gt, ?_, ?_⟩
  · intro k a entry
    exact arranged.parent?_of_getElem?_lineage entry
  · intro a member
    exact arranged.lt_size_of_mem_lineage present member
  · intro a
    rw [arranged.mem_lineage_iff]
    exact ⟨arranged.reaches_of_above, arranged.above_of_reaches⟩

/-! ### Turns -/

/-- A turn adds the entry that is next in the lineage. -/
theorem next_lineage (present : x < t.size) (k : Nat) :
    Tracing.next t ⟨(t.lineage x).take k, (t.lineage x)[k]?⟩ =
      ⟨(t.lineage x).take (k + 1), (t.lineage x)[k + 1]?⟩ := by
  cases entry : (t.lineage x)[k]? with
  | none =>
    have short := List.getElem?_eq_none_iff.mp entry
    rw [Tracing.next, List.take_of_length_le short, List.take_of_length_le (by omega),
      List.getElem?_eq_none (by omega)]
  | some p =>
    -- The entry is a node of the tree, so its parent can be looked up.
    have there := arranged.lt_size_of_mem_lineage present (List.mem_of_getElem? entry)
    have found : t.node? p = some t.nodes[p] := Array.getElem?_eq_getElem there
    have onward : t.nodes[p].parent = (t.lineage x)[k + 1]? := by
      rw [← arranged.parent?_of_getElem?_lineage entry, parent?, found]
      rfl
    rw [Tracing.next, found]
    simp only [onward, List.take_add_one, entry, Option.toList_some]

theorem run_lineage (present : x < t.size) (turns : Nat) :
    Tracing.run t x turns =
      ⟨(t.lineage x).take (turns + 1), (t.lineage x)[turns + 1]?⟩ := by
  induction turns with
  | zero =>
    rw [List.take_add_one, arranged.getElem?_zero_lineage, arranged.getElem?_one_lineage]
    rfl
  | succ turns ih =>
    rw [Tracing.run] at ih ⊢
    rw [Function.iterate_succ_apply', ih, arranged.next_lineage present]

/-! ### Two lineages -/

theorem deeper_of_mem_climb (climb : t.Climb top x xs) (member : a ∈ xs) :
    t.Above a x ∧ t.depth top < t.depth a := by
  induction climb with
  | here => cases member
  | step link rest ih =>
    rcases List.mem_cons.mp member with rfl | member
    · have higher := arranged.depth_le_of_above rest.above
      rw [arranged.depth_of_parent link]
      exact ⟨.here, Nat.lt_succ_of_le higher⟩
    · obtain ⟨above, deeper⟩ := ih member
      exact ⟨.step link above, deeper⟩

theorem disjoint_of_turn (turn : t.Turn top start finish) (climb : t.Climb top start up)
    (climb' : t.Climb top finish down) : up.Disjoint down := by
  intro a member member'
  obtain ⟨above, deeper⟩ := arranged.deeper_of_mem_climb climb member
  obtain ⟨above', -⟩ := arranged.deeper_of_mem_climb climb' member'
  exact Nat.not_lt.mpr (turn.deepest a above above') deeper

theorem reverse_lineages_part (hs : start < t.size) (hf : finish < t.size) :
    ∃ common left right, (t.lineage start).reverse = common ++ left ∧
      (t.lineage finish).reverse = common ++ right ∧ left.Disjoint right ∧
      common.head? = some root ∧ common.length = (t.fork start finish).shared := by
  obtain ⟨top, up, down, turn, climb, climb'⟩ := arranged.exists_climbs hs hf
  have there := arranged.lt_size_of_above turn.above_start hs
  refine ⟨(t.lineage top).reverse, up.reverse, down.reverse, ?_, ?_, ?_, ?_, ?_⟩
  · rw [arranged.lineage_of_climb climb, List.reverse_append]
  · rw [arranged.lineage_of_climb climb', List.reverse_append]
  · intro a member member'
    exact arranged.disjoint_of_turn turn climb climb' (List.mem_reverse.mp member)
      (List.mem_reverse.mp member')
  · rw [List.head?_reverse]
    exact arranged.getLast?_lineage there
  · rw [arranged.fork_of_turn turn climb climb', List.length_reverse]

end Arranged

/-- Following the parents of a node ends at the root, after one turn for each edge on the way, and
gives the lineage of the node: the nodes from which it is reached over children, each followed by
its parent. Two lineages, read from the root, agree up to where they part and share nothing below. -/
theorem lineage_traced_to_root (grown : t.Grown) (present : x < t.size) :
    (∀ turns, (Tracing.run t x turns).above = none ↔ t.depth x ≤ turns) ∧
      (∀ turns, t.depth x ≤ turns → (Tracing.run t x turns).chain = t.lineage x) ∧
      t.Pedigree x (t.lineage x) ∧
      ∀ y < t.size, ∃ common left right, (t.lineage x).reverse = common ++ left ∧
        (t.lineage y).reverse = common ++ right ∧ left.Disjoint right ∧
        common.head? = some root ∧ common.length = (t.fork x y).shared := by
  have arranged := grown.arranged
  have length := arranged.length_lineage present
  refine ⟨?_, ?_, arranged.pedigree_lineage present, ?_⟩
  · intro turns
    rw [arranged.run_lineage present, List.getElem?_eq_none_iff, length]
    exact Nat.add_le_add_iff_right
  · intro turns enough
    rw [arranged.run_lineage present]
    exact List.take_of_length_le (by omega)
  · intro y other
    exact arranged.reverse_lineages_part present other

theorem lineage_traced_to_root_in_assignment :
    assignmentTree.Grown ∧ 3 < assignmentTree.size ∧ 4 < assignmentTree.size ∧
      (Tracing.run assignmentTree 3 2).above ≠ none ∧
      Tracing.run assignmentTree 3 3 = ⟨[3, 2, 1, 0], none⟩ ∧
      assignmentTree.lineage 3 = [3, 2, 1, 0] ∧ assignmentTree.lineage 4 = [4, 2, 1, 0] ∧
      ∃ common left right, [0, 1, 2, 3] = common ++ left ∧ [0, 1, 2, 4] = common ++ right ∧
        left.Disjoint right := by
  have hs : 3 < assignmentTree.size := by decide
  have hf : 4 < assignmentTree.size := by decide
  obtain ⟨ended, chain, -, part⟩ := lineage_traced_to_root grown_assignmentTree hs
  obtain ⟨ended', chain', -⟩ := lineage_traced_to_root grown_assignmentTree hf
  have third : Tracing.run assignmentTree 3 3 = ⟨[3, 2, 1, 0], none⟩ := by decide
  have third' : Tracing.run assignmentTree 4 3 = ⟨[4, 2, 1, 0], none⟩ := by decide
  have lineage : assignmentTree.lineage 3 = [3, 2, 1, 0] := by
    rw [← chain 3 ((ended 3).mp (by rw [third])), third]
  have lineage' : assignmentTree.lineage 4 = [4, 2, 1, 0] := by
    rw [← chain' 3 ((ended' 3).mp (by rw [third'])), third']
  obtain ⟨common, left, right, downward, downward', apart, -⟩ := part 4 hf
  rw [lineage] at downward
  rw [lineage'] at downward'
  exact ⟨grown_assignmentTree, hs, hf, by decide, third, lineage, lineage', common, left, right,
    downward, downward', apart⟩

end LeafPaths.Ast
