import LeafPaths.Proofs.Ast.Layout
import LeafPaths.Proofs.Context.Pairs

/-!
Extraction is local. The tree of a node that is kept lies as a block in the tree of any place above
it, and its contexts are those of the larger tree whose two ends are in the block.
-/

namespace LeafPaths

/-- The numbers of a block among all numbers. -/
theorem filter_range_eq_range' {k m n : Nat} (inside : k + m ≤ n) {within : Nat → Bool}
    (block : ∀ y, within y = true ↔ k ≤ y ∧ y < k + m) :
    (List.range n).filter within = List.range' k m := by
  obtain ⟨later, rfl⟩ := Nat.exists_eq_add_of_le inside
  have parts : List.range (k + m + later) =
      List.range' 0 k ++ (List.range' k m ++ List.range' (k + m) later) := by
    have joined := @List.range'_append_1 0 k (m + later)
    rw [Nat.zero_add, ← Nat.add_assoc] at joined
    rw [List.range'_append_1, joined, List.range_eq_range']
  have before : (List.range' 0 k).filter within = [] := by
    apply List.filter_eq_nil_iff.mpr
    intro y member
    rw [block, List.mem_range'_1] at *
    omega
  have here : (List.range' k m).filter within = List.range' k m := by
    apply List.filter_eq_self.mpr
    intro y member
    rw [block]
    exact List.mem_range'_1.mp member
  have after : (List.range' (k + m) later).filter within = [] := by
    apply List.filter_eq_nil_iff.mpr
    intro y member
    rw [block, List.mem_range'_1] at *
    omega
  rw [parts, List.filter_append, List.filter_append, before, here, after, List.nil_append,
    List.append_nil]

namespace Ast

variable {code : ByteArray} {p q : Place} {k : Nat}

/-- The nodes of the part are those of the whole that have its root above them. -/
theorem mem_lineage_ofPlace_iff (kept : (p.outline code).preorder[k]? = some q) (y : Nat) :
    k ∈ (ofPlace code p).lineage y ↔ k ≤ y ∧ y < k + (ofPlace code q).size := by
  have arranged := (grown_ofPlace code p).arranged
  rw [arranged.mem_lineage_iff, ← arranged.mem_preorder_iff, preorder_ofPlace kept,
    List.mem_range'_1]

theorem embeds_ofPlace (kept : (p.outline code).preorder[k]? = some q) :
    (ofPlace code q).Embeds (ofPlace code p) (k + ·) := by
  obtain ⟨parent, rank, block⟩ := block_ofPlace kept
  rw [layout_eq_shift, ← toList_ofPlace] at block
  exact embeds_of_block block

theorem fits_ofPlace (kept : (p.outline code).preorder[k]? = some q) :
    k + (ofPlace code q).size ≤ (ofPlace code p).size := by
  have some_node := (grown_ofPlace code q).size_pos
  have last := (embeds_ofPlace kept).present (Nat.sub_one_lt_of_lt some_node)
  omega

theorem filter_range_ofPlace (kept : (p.outline code).preorder[k]? = some q) :
    ((List.range (ofPlace code p).size).filter fun id => k ∈ (ofPlace code p).lineage id) =
      List.range' k (ofPlace code q).size := by
  apply filter_range_eq_range' (fits_ofPlace kept)
  intro y
  rw [decide_eq_true_eq, mem_lineage_ofPlace_iff kept]

/-- The leaves of the part are those of the whole that have its root above them. -/
theorem filter_leaves_ofPlace (kept : (p.outline code).preorder[k]? = some q) :
    ((ofPlace code p).leaves.filter fun id => k ∈ (ofPlace code p).lineage id) =
      (ofPlace code q).leaves.map (k + ·) := by
  -- Lying in the block is asked first, of all numbers, and having a value of those that are left.
  rw [leaves_ofPlace, leaves_ofPlace, List.filter_filter, List.filter_congr fun _ _ => Bool.and_comm _ _,
    ← List.filter_filter, filter_range_ofPlace kept, List.range'_eq_map_range, List.filter_map]
  congr 1
  apply List.filter_congr
  intro x member
  rw [Function.comp_apply, (embeds_ofPlace kept).value? (List.mem_range.mp member)]

/-- The tree of `q`, the place of node `k` in the tree of `p`, is the block of that tree from `k`
on, with its root taken off the parent. Its contexts are those of the tree of `p` for the pairs of
leaves that have node `k` above them. -/
theorem ofPlace_block_of_kept (kept : (p.outline code).preorder[k]? = some q) (limits : Limits) :
    let whole := ofPlace code p
    let part := ofPlace code q
    (part.nodes.toList.map (Node.shift k) =
      ((whole.nodes.toList.drop k).take part.size).modifyHead (Node.under none 0)) ∧
    (∀ y, k ∈ whole.lineage y ↔ k ≤ y ∧ y < k + part.size) ∧
    (Pairs.of whole.leaves).rest whole limits =
      (orderedPairs whole.leaves).filterMap (fun ends => whole.context? limits ends.1 ends.2) ∧
    (Pairs.of part.leaves).rest part limits =
      ((orderedPairs whole.leaves).filter fun ends =>
        k ∈ whole.lineage ends.1 && k ∈ whole.lineage ends.2).filterMap
          fun ends => whole.context? limits ends.1 ends.2 := by
  intro whole part
  refine ⟨?_, mem_lineage_ofPlace_iff kept, Pairs.rest_of _, ?_⟩
  · obtain ⟨parent, rank, block⟩ := block_ofPlace kept
    have size : part.size = (layout k parent rank (q.sketch code)).length := by
      rw [length_layout, size_ofPlace]
    rw [size, ← List.prefix_iff_eq_take.mp block, toList_ofPlace, modifyHead_layout]
  · have present : ∀ x ∈ part.leaves, x < part.size := by
      intro x member
      rw [leaves_ofPlace] at member
      exact List.mem_range.mp (List.mem_filter.mp member).1
    rw [← orderedPairs_filter (fun id => k ∈ whole.lineage id), filter_leaves_ofPlace kept,
      (embeds_ofPlace kept).contexts (grown_ofPlace code q).arranged (grown_ofPlace code p).arranged
        limits present, Pairs.rest_of]

def leafAt (kind : String) (named : Bool) (firstByte endByte : Nat) : Cst :=
  .node ⟨kind, named, false, false, false, false, firstByte, endByte, 0, firstByte, none⟩ []

def argumentsCst : Cst :=
  .node ⟨"argument_list", true, false, false, false, false, 1, 7, 0, 1, none⟩
    [leafAt "(" false 1 2, leafAt "identifier" true 2 3, leafAt "," false 3 4,
      leafAt "integer" true 5 6, leafAt ")" false 6 7]

def callCst : Cst :=
  .node ⟨"call", true, false, false, false, false, 0, 7, 0, 0, none⟩
    [leafAt "identifier" true 0 1, argumentsCst]

def argumentsPlace : Place := ⟨argumentsCst, [⟨callCst.info, [leafAt "identifier" true 0 1], []⟩]⟩

theorem kept_argumentsPlace :
    ((Place.root callCst).outline "f(a, 1)".toUTF8).preorder[2]? = some argumentsPlace := by
  have called : (Place.root callCst).keptChildren =
      [⟨leafAt "identifier" true 0 1, [⟨callCst.info, [], [argumentsCst]⟩]⟩, argumentsPlace] := rfl
  rw [Place.preorder_outline_eq, if_neg (by decide +kernel), called, List.flatMap_cons,
    List.flatMap_singleton, Place.preorder_outline_eq, if_pos (by decide +kernel),
    Place.preorder_outline_eq]
  rfl

theorem ofPlace_block_of_arguments :
    ((Place.root callCst).outline "f(a, 1)".toUTF8).preorder[2]? = some argumentsPlace ∧
      (ofPlace "f(a, 1)".toUTF8 argumentsPlace).nodes.toList.map (Node.shift 2) =
        (((ofPlace "f(a, 1)".toUTF8 (.root callCst)).nodes.toList.drop 2).take 3).modifyHead
          (Node.under none 0) := by
  have three : (ofPlace "f(a, 1)".toUTF8 argumentsPlace).size = 3 := by decide +kernel
  have block := (ofPlace_block_of_kept kept_argumentsPlace ⟨8, 2⟩).1
  rw [three] at block
  exact ⟨kept_argumentsPlace, block⟩

end Ast
end LeafPaths
