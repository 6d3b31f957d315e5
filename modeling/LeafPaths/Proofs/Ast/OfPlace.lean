import Mathlib.Data.List.Nodup
import LeafPaths.Ast.OfPlace
import LeafPaths.Proofs.Ast.Outline

/-!
The worklist builds the tree that a recursion over the places builds. A pending place stands for
the whole tree below it: adding what is pending plants these trees one after the other.
-/

namespace LeafPaths

variable {code : ByteArray}

namespace Place

theorem size_le_load {q : Ast.Pending} {pending : List Ast.Pending} (member : q ∈ pending) :
    q.place.here.size ≤ Ast.Pending.load pending := by
  induction pending with
  | nil => cases member
  | cons next later ih =>
    rw [Ast.Pending.load]
    rcases List.mem_cons.mp member with rfl | member
    · exact Nat.le_add_right _ _
    · exact Nat.le_trans (ih member) (Nat.le_add_left _ _)

theorem size_lt_of_mem_keptChildren {p c : Place} (member : c ∈ p.keptChildren) :
    c.here.size < p.here.size := by
  have pending : (⟨c, 0⟩ : Ast.Pending) ∈ p.keptChildren.map (⟨·, 0⟩) :=
    List.mem_map_of_mem member
  exact Nat.lt_of_le_of_lt (size_le_load pending) (Ast.Pending.load_keptChildren p 0)

theorem map_here_siblings (parent : Cst.Info) (above : List Step) (left right : List Cst) :
    (siblings parent above left right).map (·.here) = right := by
  induction right generalizing left with
  | nil => rfl
  | cons first right ih => rw [siblings, List.map_cons, ih]

theorem map_here_keptChildren (p : Place) :
    p.keptChildren.map (·.here) = p.here.children.filter (·.kept) := by
  rw [keptChildren, ← map_here_siblings p.here.info p.above [] p.here.children, List.filter_map,
    map_here_siblings]
  rfl

theorem here_mem_children {p c : Place} (child : c ∈ p.keptChildren) :
    c.here ∈ p.here.children := by
  have listed : c.here ∈ p.keptChildren.map (·.here) := List.mem_map_of_mem child
  rw [map_here_keptChildren] at listed
  exact (List.mem_filter.mp listed).1

/-- The abstract tree at a place, every node labelled by the place it stands for. -/
def outline (code : ByteArray) (p : Place) : Outline Place :=
  .node p (if (p.value? code).isSome then []
    else ((siblings p.here.info p.above [] p.here.children).filter fun c =>
      c.here.info.named && !c.here.info.extra).attach.map fun ⟨c, _⟩ => c.outline code)
termination_by p.here.size
decreasing_by
  rename_i member
  exact size_lt_of_mem_keptChildren member

theorem outline_eq (code : ByteArray) (p : Place) :
    p.outline code =
      .node p (if (p.value? code).isSome then [] else p.keptChildren.map (outline code)) := by
  rw [outline, List.map_attach_eq_pmap, List.pmap_eq_map]
  rfl

theorem preorder_outline_eq (code : ByteArray) (p : Place) :
    (p.outline code).preorder =
      p :: if (p.value? code).isSome then []
        else p.keptChildren.flatMap fun c => (c.outline code).preorder := by
  rw [outline_eq, Outline.preorder, Outline.preorders_eq]
  split
  · rfl
  · rw [List.flatMap_map]

/-- Induction from the children that are kept to their parent. -/
theorem induction_on_keptChildren {P : Place → Prop}
    (step : ∀ p : Place, (∀ c ∈ p.keptChildren, P c) → P p) (p : Place) : P p := by
  induction bound : p.here.size using Nat.strongRecOn generalizing p with
  | ind n ih =>
    apply step
    intro c member
    have smaller := size_lt_of_mem_keptChildren member
    exact ih c.here.size (by omega) c rfl

/-! ### No place occurs twice -/

theorem above_of_mem_siblings {parent : Cst.Info} {above : List Step} {left right : List Cst}
    {c : Place} (member : c ∈ siblings parent above left right) :
    ∃ step, c.above = step :: above ∧ left.length ≤ step.left.length := by
  induction right generalizing left with
  | nil => cases member
  | cons first right ih =>
    rw [siblings] at member
    rcases List.mem_cons.mp member with rfl | member
    · exact ⟨⟨parent, left, right⟩, rfl, Nat.le_refl _⟩
    · obtain ⟨step, same, further⟩ := ih member
      exact ⟨step, same, Nat.le_trans (Nat.le_succ _) further⟩

theorem above_ne_of_siblings (parent : Cst.Info) (above : List Step) (left right : List Cst) :
    (siblings parent above left right).Pairwise fun c d => c.above ≠ d.above := by
  induction right generalizing left with
  | nil => exact List.Pairwise.nil
  | cons first right ih =>
    rw [siblings, List.pairwise_cons]
    refine ⟨?_, ih _⟩
    intro d member same
    obtain ⟨step, above, further⟩ := above_of_mem_siblings member
    have equal : (⟨parent, left, right⟩ : Step) = step := by
      rw [above] at same
      exact (List.cons.inj same).1
    rw [← equal] at further
    exact Nat.lt_irrefl _ further

theorem above_of_mem_keptChildren {p c : Place} (member : c ∈ p.keptChildren) :
    ∃ step, c.above = step :: p.above := by
  obtain ⟨step, above, -⟩ := above_of_mem_siblings (List.mem_filter.mp member).1
  exact ⟨step, above⟩

theorem above_suffix_of_mem_outline {p q : Place} (member : q ∈ (p.outline code).preorder) :
    p.above <:+ q.above := by
  induction p using induction_on_keptChildren with
  | step p ih =>
    rw [preorder_outline_eq] at member
    rcases List.mem_cons.mp member with rfl | member
    · exact List.suffix_refl _
    · split at member
      · cases member
      · obtain ⟨c, child, below⟩ := List.mem_flatMap.mp member
        obtain ⟨step, above⟩ := above_of_mem_keptChildren child
        have suffix := ih c child below
        rw [above] at suffix
        exact (List.suffix_cons step p.above).trans suffix

theorem nodup_preorder_outline (code : ByteArray) (p : Place) :
    (p.outline code).preorder.Nodup := by
  induction p using induction_on_keptChildren with
  | step p ih =>
    rw [preorder_outline_eq]
    split
    · exact List.nodup_cons.mpr ⟨List.not_mem_nil, List.nodup_nil⟩
    · rw [List.nodup_cons, List.nodup_flatMap]
      refine ⟨?_, ih, ?_⟩
      · intro member
        obtain ⟨c, child, below⟩ := List.mem_flatMap.mp member
        obtain ⟨step, above⟩ := above_of_mem_keptChildren child
        have longer := (above_suffix_of_mem_outline below).length_le
        rw [above, List.length_cons] at longer
        omega
      · -- What is above a place at or below two children ends in what is above either of them.
        apply ((above_ne_of_siblings _ _ _ _).filter _).imp_of_mem
        intro c d child child' different q below below'
        apply different
        obtain ⟨step, above⟩ := above_of_mem_keptChildren child
        obtain ⟨step', above'⟩ := above_of_mem_keptChildren child'
        have length : c.above.length = d.above.length := by
          rw [above, above', List.length_cons, List.length_cons]
        have suffix := List.suffix_of_suffix_length_le (above_suffix_of_mem_outline below)
          (above_suffix_of_mem_outline below') (Nat.le_of_eq length)
        exact suffix.eq_of_length length

/-! ### What the nodes take from their places -/

def label (code : ByteArray) (p : Place) : String × Option String := (p.here.kind, p.value? code)

def sketch (code : ByteArray) (p : Place) : Ast.Sketch := (p.outline code).map (label code)

theorem sketch_eq (code : ByteArray) (p : Place) :
    p.sketch code =
      .node (p.label code)
        (if (p.value? code).isSome then [] else p.keptChildren.map (sketch code)) := by
  rw [sketch, outline_eq, Outline.map, Outline.maps_eq]
  split
  · rfl
  · rw [List.map_map]
    rfl

theorem valueOf_value? (code : ByteArray) (p : Place) :
    Ast.valueOf (p.value? code) = p.value? code := by
  cases valued : p.value? code with
  | none => rfl
  | some v => simp [Ast.valueOf, value?_ne_empty valued]

/-- Nothing stands below a node with a value. -/
theorem childless_of_mem_layout {p : Place} {n : Ast.Node} {id rank : Nat} {parent : Option Nat}
    (member : n ∈ Ast.layout id parent rank (p.sketch code)) (valued : n.value.isSome) :
    n.children = #[] := by
  induction p using induction_on_keptChildren generalizing id parent rank with
  | step p ih =>
    rw [sketch_eq, Ast.layout] at member
    rcases List.mem_cons.mp member with rfl | member
    · have present : (p.value? code).isSome := by
        rw [← valueOf_value?]
        exact valued
      rw [if_pos present]
      rfl
    · split at member
      · cases member
      · obtain ⟨o, listed, id, rank, member⟩ := Ast.mem_layouts member
        obtain ⟨c, child, rfl⟩ := List.mem_map.mp listed
        exact ih c child member

end Place

namespace Ast

theorem plantAll_eq_foldl (t : Ast) (parent : Nat) (outlines : List Sketch) :
    t.plantAll parent outlines = outlines.foldl (fun t o => t.plant parent o) t := by
  induction outlines generalizing t with
  | nil => rw [plantAll, List.foldl_nil]
  | cons first later ih => rw [plantAll, ih, List.foldl_cons]

theorem foldl_plant (t : Ast) (id : Nat) (places : List Place) :
    (places.map (⟨·, id⟩ : Place → Pending)).foldl
        (fun t next => t.plant next.parent (next.place.sketch code)) t =
      t.plantAll id (places.map (Place.sketch code)) := by
  rw [plantAll_eq_foldl, List.foldl_map, List.foldl_map]

theorem fill_eq_foldl (t : Ast) (pending : List Pending) :
    fill code t pending =
      pending.foldl (fun t next => t.plant next.parent (next.place.sketch code)) t := by
  fun_induction fill code t pending with
  | case1 t => rfl
  | case2 t place parent later value grown valued ih =>
    rw [ih, List.foldl_cons, Place.sketch_eq, if_pos valued, plant, plantAll]
    rfl
  | case3 t place parent later id value grown valueless ih =>
    rw [ih, List.foldl_append, List.foldl_cons, foldl_plant, Place.sketch_eq, if_neg valueless,
      plant]
    rfl

theorem grown_fill {t : Ast} (grown : t.Grown) (pending : List Pending)
    (present : ∀ next ∈ pending, next.parent < t.size) : (fill code t pending).Grown := by
  fun_induction fill code t pending with
  | case1 t => exact grown
  | case2 t place parent later value larger valued ih =>
    obtain ⟨here, rest⟩ := List.forall_mem_cons.mp present
    apply ih (.push grown here _ _)
    intro next member
    rw [size_push]
    exact Nat.lt_succ_of_lt (rest next member)
  | case3 t place parent later id value larger valueless ih =>
    obtain ⟨here, rest⟩ := List.forall_mem_cons.mp present
    apply ih (.push grown here _ _)
    intro next member
    rw [size_push]
    rcases List.mem_append.mp member with member | member
    · obtain ⟨c, -, rfl⟩ := List.mem_map.mp member
      exact Nat.lt_succ_self t.size
    · exact Nat.lt_succ_of_lt (rest next member)

theorem grown_ofPlace (code : ByteArray) (p : Place) : (ofPlace code p).Grown := by
  rw [ofPlace]
  split
  · exact .new _ _
  · apply grown_fill (.new _ _)
    intro next member
    obtain ⟨c, -, rfl⟩ := List.mem_map.mp member
    exact Nat.zero_lt_one

theorem toList_ofPlace (code : ByteArray) (p : Place) :
    (ofPlace code p).nodes.toList = layout 0 none 0 (p.sketch code) := by
  have alone : (new p.here.kind (p.value? code)).nodes.toList =
      [⟨p.here.kind, valueOf (p.value? code), none, #[], 0⟩] := rfl
  have present : root < (new p.here.kind (p.value? code)).size := Nat.zero_lt_one
  rw [ofPlace, Place.sketch_eq, layout]
  split
  · exact alone
  · have childless : (new p.here.kind (p.value? code)).children root = [] := rfl
    rw [fill_eq_foldl, foldl_plant, toList_plantAll _ _ present, childless, alone, size_new, root,
      List.modify_zero_cons]
    simp [Node.adopt, Place.label]

theorem node?_root_ofPlace (code : ByteArray) (p : Place) :
    (ofPlace code p).node? root = some
      { kind := p.here.kind
        value := p.value? code
        parent := none
        children := (siblingIds 1 (if (p.value? code).isSome then []
          else p.keptChildren.map (Place.sketch code))).toArray
        rank := 0 } := by
  rw [node?, ← Array.getElem?_toList, toList_ofPlace, Place.sketch_eq, layout,
    ← Place.valueOf_value? code p]
  rfl

theorem map_toList_ofPlace (code : ByteArray) (p : Place) :
    (ofPlace code p).nodes.toList.map (fun n => (n.kind, n.value)) =
      (p.outline code).preorder.map (Place.label code) := by
  rw [toList_ofPlace, map_layout, Place.sketch, Outline.preorder_map, List.map_map]
  apply List.map_congr_left
  intro q _
  exact Prod.ext rfl (Place.valueOf_value? code q)

theorem childless_of_mem_ofPlace {p : Place} {n : Node} (member : n ∈ (ofPlace code p).nodes)
    (valued : n.value.isSome) : n.children = #[] := by
  have listed : n ∈ layout 0 none 0 (p.sketch code) := by
    rw [← toList_ofPlace]
    exact Array.mem_toList_iff.mpr member
  exact Place.childless_of_mem_layout listed valued

/-- The tree of a place has the nodes of the outline, numbered in pre-order, under the parents and
in the ranks that they have there. -/
theorem ofPlace_eq_outline (code : ByteArray) (p : Place) :
    (ofPlace code p).nodes.toList = layout 0 none 0 ((p.outline code).map (Place.label code)) ∧
    (ofPlace code p).nodes.toList.map (fun n => (n.kind, n.value)) =
      (p.outline code).preorder.map (Place.label code) ∧
    (p.outline code).preorder.Nodup ∧
    ∀ n ∈ (ofPlace code p).nodes, n.value.isSome → n.children = #[] := by
  exact ⟨toList_ofPlace code p, map_toList_ofPlace code p, Place.nodup_preorder_outline code p,
    fun _ => childless_of_mem_ofPlace⟩

end Ast
end LeafPaths
