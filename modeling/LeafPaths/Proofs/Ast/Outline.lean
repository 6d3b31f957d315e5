import LeafPaths.Proofs.Ast.Arranged

/-!
Ordered trees by recursion, and how such a tree is laid out as numbered nodes: a node's number is
its place in pre-order, so the children of a node begin right after it, each where the nodes of the
one before end. Pushing the nodes in pre-order gives this layout.
-/

namespace LeafPaths

inductive Outline (α : Type) where
  | node (label : α) (children : List (Outline α))

namespace Outline

variable {α β : Type}

mutual

def size : Outline α → Nat
  | node _ children => sizes children + 1

def sizes : List (Outline α) → Nat
  | [] => 0
  | first :: later => first.size + sizes later

end

mutual

def preorder : Outline α → List α
  | node label children => label :: preorders children

def preorders : List (Outline α) → List α
  | [] => []
  | first :: later => first.preorder ++ preorders later

end

mutual

def map (f : α → β) : Outline α → Outline β
  | node label children => node (f label) (maps f children)

def maps (f : α → β) : List (Outline α) → List (Outline β)
  | [] => []
  | first :: later => first.map f :: maps f later

end

theorem maps_eq (f : α → β) (outlines : List (Outline α)) : maps f outlines = outlines.map (map f) := by
  induction outlines with
  | nil => rfl
  | cons first later ih => rw [maps, ih, List.map_cons]

theorem preorders_eq (outlines : List (Outline α)) :
    preorders outlines = outlines.flatMap preorder := by
  induction outlines with
  | nil => rfl
  | cons first later ih => rw [preorders, ih, List.flatMap_cons]

mutual

theorem preorder_map (f : α → β) (o : Outline α) : (o.map f).preorder = o.preorder.map f := by
  cases o with
  | node label children => rw [map, preorder, preorders_map, preorder, List.map_cons]

theorem preorders_map (f : α → β) (outlines : List (Outline α)) :
    preorders (maps f outlines) = (preorders outlines).map f := by
  cases outlines with
  | nil => rfl
  | cons first later =>
    rw [maps, preorders, preorder_map, preorders_map, preorders, List.map_append]

end

end Outline

namespace Ast

abbrev Sketch := Outline (String × Option String)

/-- The numbers of siblings whose nodes are numbered from `id` on. -/
def siblingIds (id : Nat) : List Sketch → List Nat
  | [] => []
  | first :: later => id :: siblingIds (id + first.size) later

mutual

/-- The nodes of a tree in pre-order, numbered from `id` on. -/
def layout (id : Nat) (parent : Option Nat) (rank : Nat) : Sketch → List Node
  | .node label children =>
    { kind := label.1
      value := valueOf label.2
      parent
      children := (siblingIds (id + 1) children).toArray
      rank } :: layouts (id + 1) id 0 children

def layouts (id parent rank : Nat) : List Sketch → List Node
  | [] => []
  | first :: later =>
    layout id (some parent) rank first ++ layouts (id + first.size) parent (rank + 1) later

end

mutual

theorem map_layout (id : Nat) (parent : Option Nat) (rank : Nat) (o : Sketch) :
    (layout id parent rank o).map (fun n => (n.kind, n.value)) =
      o.preorder.map fun label => (label.1, valueOf label.2) := by
  cases o with
  | node label children => rw [layout, List.map_cons, map_layouts, Outline.preorder, List.map_cons]

theorem map_layouts (id parent rank : Nat) (outlines : List Sketch) :
    (layouts id parent rank outlines).map (fun n => (n.kind, n.value)) =
      (Outline.preorders outlines).map fun label => (label.1, valueOf label.2) := by
  cases outlines with
  | nil => rfl
  | cons first later =>
    rw [layouts, List.map_append, map_layout, map_layouts, Outline.preorders, List.map_append]

end

mutual

theorem length_layout (id : Nat) (parent : Option Nat) (rank : Nat) (o : Sketch) :
    (layout id parent rank o).length = o.size := by
  cases o with
  | node label children => rw [layout, List.length_cons, length_layouts, Outline.size]

theorem length_layouts (id parent rank : Nat) (outlines : List Sketch) :
    (layouts id parent rank outlines).length = Outline.sizes outlines := by
  cases outlines with
  | nil => rfl
  | cons first later =>
    rw [layouts, List.length_append, length_layout, length_layouts, Outline.sizes]

end

theorem mem_layouts {n : Node} {id parent rank : Nat} {outlines : List Sketch}
    (member : n ∈ layouts id parent rank outlines) :
    ∃ o ∈ outlines, ∃ id rank, n ∈ layout id (some parent) rank o := by
  induction outlines generalizing id rank with
  | nil => cases member
  | cons first later ih =>
    rw [layouts] at member
    rcases List.mem_append.mp member with member | member
    · exact ⟨first, List.mem_cons_self, id, rank, member⟩
    · obtain ⟨o, listed, place⟩ := ih member
      exact ⟨o, List.mem_cons_of_mem first listed, place⟩

/-! ### Pushing the nodes of a tree -/

mutual

/-- Pushes the nodes of a tree under `parent`, in pre-order. -/
def plant (t : Ast) (parent : Nat) : Sketch → Ast
  | .node label children => plantAll (t.push parent label.1 label.2) t.size children

def plantAll (t : Ast) (parent : Nat) : List Sketch → Ast
  | [] => t
  | first :: later => plantAll (t.plant parent first) parent later

end

def Node.adopt (ids : List Nat) (n : Node) : Node := { n with children := n.children ++ ids.toArray }

theorem modify_append_of_lt {f : Node → Node} {i : Nat} {before after : List Node}
    (inside : i < before.length) :
    (before ++ after).modify i f = before.modify i f ++ after := by
  rw [List.modify_eq_take_cons_drop inside,
    List.modify_eq_take_cons_drop (by rw [List.length_append]; omega),
    List.take_append_of_le_length (Nat.le_of_lt inside), List.drop_append_of_le_length inside,
    List.getElem_append_left inside, List.append_assoc, List.cons_append]

theorem modify_concat {f : Node → Node} {i : Nat} {before : List Node} {n : Node}
    (last : before.length = i) : (before ++ [n]).modify i f = before ++ [f n] := by
  subst last
  rw [List.modify_eq_take_cons_drop (by simp)]
  simp

theorem adopt_adopt {ids later : List Nat} :
    Node.adopt later ∘ Node.adopt ids = Node.adopt (ids ++ later) := by
  funext n
  simp [Node.adopt]

theorem toList_push (t : Ast) (parent : Nat) (kind : String) (value : Option String) :
    (t.push parent kind value).nodes.toList =
      t.nodes.toList.modify parent (Node.adopt [t.size]) ++
        [⟨kind, valueOf value, some parent, #[], (t.children parent).length⟩] := by
  rw [push_eq, Array.toList_push, Array.toList_modify]
  rfl

theorem size_of_adopted {t u : Ast} {parent : Nat} {ids : List Nat} {added : List Node}
    (same : u.nodes.toList = t.nodes.toList.modify parent (Node.adopt ids) ++ added) :
    u.size = t.size + added.length := by
  rw [size, size, ← Array.length_toList, same, List.length_append, List.length_modify,
    Array.length_toList]

theorem children_of_adopted {t u : Ast} {parent : Nat} {ids : List Nat} {added : List Node}
    (same : u.nodes.toList = t.nodes.toList.modify parent (Node.adopt ids) ++ added)
    (present : parent < t.size) : u.children parent = t.children parent ++ ids := by
  have found : t.node? parent = some t.nodes[parent] := Array.getElem?_eq_getElem present
  have inside : parent < (t.nodes.toList.modify parent (Node.adopt ids)).length := by
    rw [List.length_modify]
    exact present
  have adopted : u.node? parent = (t.node? parent).map (Node.adopt ids) := by
    rw [node?, ← Array.getElem?_toList, same, List.getElem?_append_left inside,
      List.getElem?_modify_eq, Array.getElem?_toList, node?, Option.map_eq_map]
  simp [children, adopted, found, Node.adopt]

mutual

theorem toList_plant (t : Ast) (parent : Nat) (present : parent < t.size) (o : Sketch) :
    (t.plant parent o).nodes.toList =
      t.nodes.toList.modify parent (Node.adopt [t.size]) ++
        layout t.size (some parent) (t.children parent).length o := by
  cases o with
  | node label children =>
    have larger : t.size < (t.push parent label.1 label.2).size := by
      rw [size_push]
      exact Nat.lt_succ_self _
    have last : (t.nodes.toList.modify parent (Node.adopt [t.size])).length = t.size := by
      rw [List.length_modify]
      exact Array.length_toList
    have childless : (t.push parent label.1 label.2).children t.size = [] := by
      rw [children_push present, if_neg (Nat.ne_of_gt present), children_eq_nil (Nat.le_refl _)]
    rw [plant, toList_plantAll _ _ larger, toList_push, size_push, childless, modify_concat last,
      List.append_assoc, layout]
    simp [Node.adopt]

theorem toList_plantAll (t : Ast) (parent : Nat) (present : parent < t.size)
    (outlines : List Sketch) :
    (t.plantAll parent outlines).nodes.toList =
      t.nodes.toList.modify parent (Node.adopt (siblingIds t.size outlines)) ++
        layouts t.size parent (t.children parent).length outlines := by
  cases outlines with
  | nil =>
    have same : Node.adopt [] = id := by
      funext n
      simp [Node.adopt]
    rw [plantAll, siblingIds, layouts, same, List.modify_id, List.append_nil]
  | cons first later =>
    have planted := toList_plant t parent present first
    have inside : parent < (t.nodes.toList.modify parent (Node.adopt [t.size])).length := by
      rw [List.length_modify]
      exact present
    have size : (t.plant parent first).size = t.size + first.size := by
      rw [size_of_adopted planted, length_layout]
    have children : (t.plant parent first).children parent = t.children parent ++ [t.size] :=
      children_of_adopted planted present
    rw [plantAll, toList_plantAll _ _ (by omega) later, planted, size, children,
      modify_append_of_lt inside, List.modify_modify_eq, adopt_adopt, siblingIds, layouts,
      List.append_assoc, List.length_append]
    rfl

end

end Ast
end LeafPaths
