import LeafPaths.Proofs.Ast.Embedding
import LeafPaths.Proofs.Ast.OfPlace

/-!
Where the parts of an outline lie when it is laid out. The nodes of each tree in it are a block,
which begins with the tree's root and is what the tree by itself is laid out as, with all numbers
raised by the place of the block.
-/

namespace LeafPaths

namespace Outline

variable {α β : Type}

mutual

def subtrees : Outline α → List (Outline α)
  | node label children => node label children :: allSubtrees children

def allSubtrees : List (Outline α) → List (Outline α)
  | [] => []
  | first :: later => first.subtrees ++ allSubtrees later

end

theorem allSubtrees_eq (outlines : List (Outline α)) :
    allSubtrees outlines = outlines.flatMap subtrees := by
  induction outlines with
  | nil => rfl
  | cons first later ih => rw [allSubtrees, ih, List.flatMap_cons]

mutual

theorem length_subtrees (o : Outline α) : o.subtrees.length = o.size := by
  cases o with
  | node label children => rw [subtrees, List.length_cons, length_allSubtrees, size]

theorem length_allSubtrees (outlines : List (Outline α)) :
    (allSubtrees outlines).length = sizes outlines := by
  cases outlines with
  | nil => rfl
  | cons first later =>
    rw [allSubtrees, List.length_append, length_subtrees, length_allSubtrees, sizes]

end

mutual

theorem subtrees_map (f : α → β) (o : Outline α) : (o.map f).subtrees = o.subtrees.map (map f) := by
  cases o with
  | node label children => rw [map, subtrees, allSubtrees_maps, subtrees, List.map_cons, map]

theorem allSubtrees_maps (f : α → β) (outlines : List (Outline α)) :
    allSubtrees (maps f outlines) = (allSubtrees outlines).map (map f) := by
  cases outlines with
  | nil => rfl
  | cons first later =>
    rw [maps, allSubtrees, subtrees_map, allSubtrees_maps, allSubtrees, List.map_append]

end

end Outline

namespace Ast

/-! ### Raising all numbers -/

def Node.shift (k : Nat) (n : Node) : Node :=
  { n with parent := n.parent.map (k + ·), children := n.children.map (k + ·) }

def Node.under (parent : Option Nat) (rank : Nat) (n : Node) : Node := { n with parent, rank }

theorem siblingIds_shift (k id : Nat) (outlines : List Sketch) :
    siblingIds (k + id) outlines = (siblingIds id outlines).map (k + ·) := by
  induction outlines generalizing id with
  | nil => rfl
  | cons first later ih => rw [siblingIds, Nat.add_assoc, ih, siblingIds, List.map_cons]

mutual

theorem layout_shift (k id : Nat) (parent : Option Nat) (rank : Nat) (o : Sketch) :
    layout (k + id) (parent.map (k + ·)) rank o = (layout id parent rank o).map (Node.shift k) := by
  cases o with
  | node label children =>
    rw [layout, layout, List.map_cons, Nat.add_assoc, layouts_shift, siblingIds_shift]
    simp [Node.shift]

theorem layouts_shift (k id parent rank : Nat) (outlines : List Sketch) :
    layouts (k + id) (k + parent) rank outlines =
      (layouts id parent rank outlines).map (Node.shift k) := by
  cases outlines with
  | nil => rfl
  | cons first later =>
    have first_shift := layout_shift k id (some parent) rank first
    rw [Option.map_some] at first_shift
    rw [layouts, first_shift, Nat.add_assoc, layouts_shift, layouts, List.map_append]

end

/-- Laid out at `k`, a tree has the nodes that it has by itself, but for the place of its root. -/
theorem layout_eq_shift (k : Nat) (parent : Option Nat) (rank : Nat) (o : Sketch) :
    layout k parent rank o =
      ((layout 0 none 0 o).map (Node.shift k)).modifyHead (Node.under parent rank) := by
  rw [← layout_shift, Nat.add_zero]
  cases o with
  | node label children => rfl

theorem modifyHead_layout (k : Nat) (parent : Option Nat) (rank : Nat) (o : Sketch) :
    (layout k parent rank o).modifyHead (Node.under none 0) =
      (layout 0 none 0 o).map (Node.shift k) := by
  rw [← layout_shift, Nat.add_zero]
  cases o with
  | node label children => rfl

/-! ### Blocks -/

theorem prefix_of_append {α : Type} {xs ys : List α} {l : List α} {k : Nat}
    (block : xs ++ ys <+: l.drop k) : xs <+: l.drop k ∧ ys <+: l.drop (k + xs.length) := by
  obtain ⟨after, same⟩ := block
  rw [← List.drop_drop, ← same, List.append_assoc]
  exact ⟨List.prefix_append _ _, by simp⟩

variable {t : Ast} {s : Sketch}

mutual

theorem exists_block {o : Sketch} {i id rank : Nat} {parent : Option Nat}
    (found : o.subtrees[i]? = some s)
    (block : layout id parent rank o <+: t.nodes.toList.drop id) :
    ∃ parent' rank', layout (id + i) parent' rank' s <+: t.nodes.toList.drop (id + i) := by
  cases o with
  | node label children =>
    cases i with
    | zero =>
      obtain rfl := Option.some.inj found
      exact ⟨parent, rank, block⟩
    | succ i =>
      rw [layout, ← List.singleton_append] at block
      have later := exists_block_of_all found (prefix_of_append block).2
      rwa [Nat.add_assoc, Nat.add_comm 1 i] at later

theorem exists_block_of_all {outlines : List Sketch} {i id parent rank : Nat}
    (found : (Outline.allSubtrees outlines)[i]? = some s)
    (block : layouts id parent rank outlines <+: t.nodes.toList.drop id) :
    ∃ parent' rank', layout (id + i) parent' rank' s <+: t.nodes.toList.drop (id + i) := by
  cases outlines with
  | nil => cases found
  | cons first later =>
    rw [layouts] at block
    obtain ⟨here, there⟩ := prefix_of_append block
    rw [length_layout] at there
    rw [Outline.allSubtrees, List.getElem?_append, Outline.length_subtrees] at found
    split at found
    · exact exists_block found here
    · rename_i beyond
      have inside := exists_block_of_all found there
      rwa [Nat.add_assoc, Nat.add_sub_cancel' (Nat.le_of_not_lt beyond)] at inside

end

/-! ### Pre-order -/

theorem node?_of_block {n : Node} {later : List Node} {id : Nat}
    (block : n :: later <+: t.nodes.toList.drop id) : t.node? id = some n := by
  obtain ⟨after, same⟩ := block
  rw [node?, ← Array.getElem?_toList, ← Nat.add_zero id, ← List.getElem?_drop, ← same]
  rfl

mutual

/-- The numbers of a block are the pre-order of its tree. -/
theorem preorder_of_block (arranged : t.Arranged) {o : Sketch} {id rank : Nat} {parent : Option Nat}
    (block : layout id parent rank o <+: t.nodes.toList.drop id) :
    t.preorder id = List.range' id o.size := by
  cases o with
  | node label children =>
    rw [layout] at block
    have listed : t.children id = siblingIds (id + 1) children := by
      rw [Ast.children, node?_of_block block]
      rfl
    rw [← List.singleton_append] at block
    rw [arranged.preorder_eq, listed, preorders_of_block arranged (prefix_of_append block).2,
      Outline.size, List.range'_succ]

theorem preorders_of_block (arranged : t.Arranged) {outlines : List Sketch} {id parent rank : Nat}
    (block : layouts id parent rank outlines <+: t.nodes.toList.drop id) :
    (siblingIds id outlines).flatMap t.preorder = List.range' id (Outline.sizes outlines) := by
  cases outlines with
  | nil => rfl
  | cons first later =>
    rw [layouts] at block
    obtain ⟨here, there⟩ := prefix_of_append block
    rw [length_layout] at there
    rw [siblingIds, List.flatMap_cons, preorder_of_block arranged here,
      preorders_of_block arranged there, Outline.sizes, List.range'_append_1]

end

/-! ### A tree in a larger one -/

theorem getElem?_shifted {nodes : List Node} {x : Nat} {n : Node} (found : nodes[x]? = some n) (k : Nat)
    (parent : Option Nat) (rank : Nat) :
    ∃ parent' rank', ((nodes.map (Node.shift k)).modifyHead (Node.under parent rank))[x]? =
      some ((n.shift k).under parent' rank') := by
  cases nodes with
  | nil => cases found
  | cons top below =>
    cases x with
    | zero =>
      obtain rfl := Option.some.inj found
      exact ⟨parent, rank, rfl⟩
    | succ x =>
      rw [List.getElem?_cons_succ] at found
      refine ⟨(n.shift k).parent, n.rank, ?_⟩
      rw [List.map_cons, List.modifyHead_cons, List.getElem?_cons_succ, List.getElem?_map, found]
      rfl

variable {u : Ast} {k rank : Nat} {parent : Option Nat}

theorem node?_of_shifted {x : Nat} {n : Node} (found : t.node? x = some n)
    (block : (t.nodes.toList.map (Node.shift k)).modifyHead (Node.under parent rank) <+:
      u.nodes.toList.drop k) :
    ∃ parent' rank', u.node? (k + x) = some ((n.shift k).under parent' rank') := by
  rw [node?, ← Array.getElem?_toList] at found
  obtain ⟨parent', rank', image⟩ := getElem?_shifted found k parent rank
  obtain ⟨after, same⟩ := block
  refine ⟨parent', rank', ?_⟩
  rw [node?, ← Array.getElem?_toList, ← List.getElem?_drop, ← same,
    List.getElem?_append_left (List.getElem?_eq_some_iff.mp image).1, image]

/-- A tree whose nodes are a block of a larger tree's is embedded there. -/
theorem embeds_of_block
    (block : (t.nodes.toList.map (Node.shift k)).modifyHead (Node.under parent rank) <+:
      u.nodes.toList.drop k) : t.Embeds u (k + ·) := by
  have counterpart : ∀ {x}, x < t.size → ∃ n parent' rank', t.node? x = some n ∧
      u.node? (k + x) = some ((n.shift k).under parent' rank') := by
    intro x present
    have found : t.node? x = some t.nodes[x] := Array.getElem?_eq_getElem present
    obtain ⟨parent', rank', image⟩ := node?_of_shifted found block
    exact ⟨_, parent', rank', found, image⟩
  refine ⟨?_, fun _ _ => Nat.add_left_cancel, ?_, ?_, ?_⟩
  · intro x present
    obtain ⟨n, parent', rank', -, image⟩ := counterpart present
    exact lt_size_of_node? image
  · intro x present
    obtain ⟨n, parent', rank', found, image⟩ := counterpart present
    rw [Ast.kind, Ast.kind, found, image]
    rfl
  · intro x present
    obtain ⟨n, parent', rank', found, image⟩ := counterpart present
    rw [Ast.value?, Ast.value?, found, image]
    rfl
  · intro x present
    obtain ⟨n, parent', rank', found, image⟩ := counterpart present
    rw [Ast.children, Ast.children, found, image]
    simp [Node.shift, Node.under]

end Ast

/-! ### The tree of a place -/

variable {code : ByteArray} {p q : Place} {k : Nat}

theorem Place.subtrees_outline (code : ByteArray) (p : Place) :
    (p.outline code).subtrees = (p.outline code).preorder.map (Place.outline code) := by
  induction p using induction_on_keptChildren with
  | step p ih =>
    rw [preorder_outline_eq, List.map_cons, outline_eq, Outline.subtrees, Outline.allSubtrees_eq]
    split
    · rfl
    · rw [List.flatMap_map, List.map_flatMap]
      congr 1
      exact List.flatMap_congr ih

theorem Place.subtrees_sketch (found : (p.outline code).preorder[k]? = some q) :
    (p.sketch code).subtrees[k]? = some (q.sketch code) := by
  rw [sketch, Outline.subtrees_map, subtrees_outline, List.map_map, List.getElem?_map, found]
  rfl

namespace Ast

theorem size_ofPlace (code : ByteArray) (p : Place) :
    (ofPlace code p).size = (p.sketch code).size := by
  rw [size, ← Array.length_toList, toList_ofPlace, length_layout]

/-- The nodes of a place that is kept are a block of the nodes of a place above it. -/
theorem block_ofPlace (found : (p.outline code).preorder[k]? = some q) :
    ∃ parent rank, layout k parent rank (q.sketch code) <+:
      (ofPlace code p).nodes.toList.drop k := by
  have whole : layout 0 none 0 (p.sketch code) <+: (ofPlace code p).nodes.toList.drop 0 := by
    refine ⟨[], ?_⟩
    rw [List.append_nil, List.drop_zero, toList_ofPlace]
  have block := exists_block (Place.subtrees_sketch found) whole
  rwa [Nat.zero_add] at block

theorem preorder_ofPlace (found : (p.outline code).preorder[k]? = some q) :
    (ofPlace code p).preorder k = List.range' k (ofPlace code q).size := by
  obtain ⟨parent, rank, block⟩ := block_ofPlace found
  rw [size_ofPlace, preorder_of_block (grown_ofPlace code p).arranged block]

theorem leaves_ofPlace (code : ByteArray) (p : Place) :
    (ofPlace code p).leaves =
      (List.range (ofPlace code p).size).filter fun id => ((ofPlace code p).value? id).isSome := by
  have first : (p.outline code).preorder[root]? = some p := by
    rw [Place.preorder_outline_eq]
    rfl
  rw [(grown_ofPlace code p).arranged.leaves_eq_filter, preorder_ofPlace first,
    List.range_eq_range']
  rfl

/-- Every node stands for a place, whose value it carries. -/
theorem exists_place (code : ByteArray) (p : Place) {x : Nat} (present : x < (ofPlace code p).size) :
    ∃ q, (p.outline code).preorder[x]? = some q ∧ (ofPlace code p).value? x = q.value? code := by
  have found : (ofPlace code p).node? x = some (ofPlace code p).nodes[x] :=
    Array.getElem?_eq_getElem present
  have labels := congrArg (·[x]?) (map_toList_ofPlace code p)
  rw [List.getElem?_map, List.getElem?_map, Array.getElem?_toList, ← node?, found,
    Option.map_some] at labels
  obtain ⟨q, place, label⟩ := Option.map_eq_some_iff.mp labels.symm
  refine ⟨q, place, ?_⟩
  rw [value?, found, Option.bind_some]
  exact (congrArg Prod.snd label).symm

theorem children_ofPlace_of_valued {p : Place} {x : Nat}
    (valued : ((ofPlace code p).value? x).isSome) : (ofPlace code p).children x = [] := by
  cases found : (ofPlace code p).node? x with
  | none => rw [children, found]; rfl
  | some n =>
    rw [value?, found, Option.bind_some] at valued
    rw [children, found, Option.map_some,
      childless_of_mem_ofPlace (Array.mem_of_getElem? found) valued]
    rfl

/-! ### Where the trees of places lie -/

variable {t : Ast} {id : Nat}

/-- The tree of the place is the block of nodes of `t` from `id` on. -/
def LiesAt (code : ByteArray) (t : Ast) (p : Place) (id : Nat) : Prop :=
  ∃ parent rank, layout id parent rank (p.sketch code) <+: t.nodes.toList.drop id

theorem liesAt_ofPlace (kept : (p.outline code).preorder[k]? = some q) :
    LiesAt code (ofPlace code p) q k := block_ofPlace kept

namespace LiesAt

theorem exists_node (lies : LiesAt code t p id) : ∃ parent rank, t.node? id = some
    { kind := p.here.kind
      value := p.value? code
      parent
      children := (siblingIds (id + 1) (if (p.value? code).isSome then []
        else p.keptChildren.map (Place.sketch code))).toArray
      rank } := by
  obtain ⟨parent, rank, block⟩ := lies
  rw [Place.sketch_eq, layout, Place.label, Place.valueOf_value?] at block
  exact ⟨parent, rank, node?_of_block block⟩

theorem kind_eq (lies : LiesAt code t p id) : t.kind id = p.here.kind := by
  obtain ⟨parent, rank, found⟩ := lies.exists_node
  rw [kind, found]
  rfl

theorem value?_eq (lies : LiesAt code t p id) : t.value? id = p.value? code := by
  obtain ⟨parent, rank, found⟩ := lies.exists_node
  rw [value?, found]
  rfl

theorem children_of_valued (lies : LiesAt code t p id) (valued : (p.value? code).isSome) :
    t.children id = [] := by
  obtain ⟨parent, rank, found⟩ := lies.exists_node
  rw [children, found, if_pos valued]
  rfl

theorem forall₂_siblings {places : List Place} {parent rank : Nat}
    (block : layouts id parent rank (places.map (Place.sketch code)) <+: t.nodes.toList.drop id) :
    List.Forall₂ (LiesAt code t) places (siblingIds id (places.map (Place.sketch code))) := by
  induction places generalizing id rank with
  | nil => exact .nil
  | cons first later ih =>
    rw [List.map_cons, layouts] at block
    obtain ⟨here, there⟩ := prefix_of_append block
    rw [length_layout] at there
    exact .cons ⟨_, _, here⟩ (ih there)

theorem forall₂_children (lies : LiesAt code t p id) (valueless : p.value? code = none) :
    List.Forall₂ (LiesAt code t) p.keptChildren (t.children id) := by
  obtain ⟨parent, rank, found⟩ := lies.exists_node
  have listed : t.children id = siblingIds (id + 1) (p.keptChildren.map (Place.sketch code)) := by
    rw [children, found, valueless]
    rfl
  obtain ⟨parent, rank, block⟩ := lies
  rw [Place.sketch_eq, layout, valueless, ← List.singleton_append] at block
  rw [listed]
  exact forall₂_siblings (prefix_of_append block).2

end LiesAt

end Ast
end LeafPaths
