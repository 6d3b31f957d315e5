import LeafPaths.Ast

/-!
The links of a tree that was made node by node agree: the list of a node's children on the one
side, and the parent and the rank of each child on the other, tell the same.
-/

namespace LeafPaths.Ast

variable {t : Ast} {parent id : Nat} {kind : String} {value : Option String}

theorem lt_size_of_node? {n : Node} (h : t.node? id = some n) : id < t.size :=
  (Array.getElem?_eq_some_iff.mp h).1

theorem lt_size_of_parent? {p : Nat} (h : t.parent? id = some p) : id < t.size := by
  obtain ⟨n, present, -⟩ := Option.bind_eq_some_iff.mp h
  exact lt_size_of_node? present

theorem node?_eq_none (h : t.size ≤ id) : t.node? id = none := Array.getElem?_eq_none h

theorem children_eq_nil (h : t.size ≤ id) : t.children id = [] := by
  simp [children, node?_eq_none h]

/-! ### The first node -/

theorem node?_new :
    (new kind value).node? id =
      if id = root then some ⟨kind, valueOf value, none, #[], 0⟩ else none := by
  cases id with
  | zero => rfl
  | succ id => exact node?_eq_none (Nat.succ_pos id)

theorem parent?_new : (new kind value).parent? id = none := by
  rw [parent?, node?_new]
  split <;> rfl

theorem value?_new : (new kind value).value? id = if id = root then valueOf value else none := by
  rw [value?, node?_new]
  split <;> rfl

theorem children_new : (new kind value).children id = [] := by
  rw [children, node?_new]
  split <;> rfl

/-! ### What a new node changes -/

theorem getElem?_concat_eq_some_iff {xs : List Nat} {a c k : Nat} :
    (xs ++ [a])[k]? = some c ↔ xs[k]? = some c ∨ k = xs.length ∧ a = c := by
  rcases Nat.lt_trichotomy k xs.length with before | rfl | after
  · simp [List.getElem?_append_left before, Nat.ne_of_lt before]
  · simp
  · have outside : (xs ++ [a])[k]? = none := List.getElem?_eq_none (by simp; omega)
    simp [outside, List.getElem?_eq_none (Nat.le_of_lt after), Nat.ne_of_gt after]

theorem push_eq :
    t.push parent kind value =
      ⟨(t.nodes.modify parent fun n => { n with children := n.children.push t.size }).push
        ⟨kind, valueOf value, some parent, #[], (t.children parent).length⟩⟩ := by
  have rank : ((t.node? parent).map (·.children.size)).getD 0 = (t.children parent).length := by
    cases found : t.node? parent <;> simp [children, found]
  rw [push, rank]

/-- The new node is the last one; of the others, only the parent has changed, in its children. -/
theorem node?_push :
    (t.push parent kind value).node? id =
      if id = t.size then
        some ⟨kind, valueOf value, some parent, #[], (t.children parent).length⟩
      else (t.node? id).map fun n =>
        { n with children := if parent = id then n.children.push t.size else n.children } := by
  by_cases new : id = t.size
  · rw [if_pos new, new]
    simp only [push_eq, node?, size, Array.getElem?_push, Array.size_modify, if_true]
  · have different : ¬ id = t.nodes.size := new
    rw [if_neg new]
    simp only [push_eq, node?, Array.getElem?_push, Array.size_modify, different, if_false,
      Array.getElem?_modify]
    split <;> simp

theorem kind_push :
    (t.push parent kind value).kind id = if id = t.size then kind else t.kind id := by
  rw [Ast.kind, node?_push]
  split
  · rfl
  · rw [Option.map_map]
    rfl

theorem value?_push :
    (t.push parent kind value).value? id =
      if id = t.size then valueOf value else t.value? id := by
  rw [value?, node?_push]
  split
  · rfl
  · rw [Option.bind_map]
    rfl

theorem parent?_push :
    (t.push parent kind value).parent? id = if id = t.size then some parent else t.parent? id := by
  rw [parent?, node?_push]
  split
  · rfl
  · rw [Option.bind_map]
    rfl

theorem rank_push :
    (t.push parent kind value).rank id =
      if id = t.size then (t.children parent).length else t.rank id := by
  rw [rank, node?_push]
  split
  · rfl
  · rw [Option.map_map]
    rfl

theorem children_push (present : parent < t.size) :
    (t.push parent kind value).children id =
      if id = parent then t.children parent ++ [t.size] else t.children id := by
  rw [children, node?_push]
  split
  next new =>
    subst new
    rw [if_neg (Nat.ne_of_gt present), children_eq_nil (Nat.le_refl _)]
    rfl
  next =>
    by_cases here : id = parent
    · subst here
      have found : t.node? id = some t.nodes[id] := Array.getElem?_eq_getElem present
      simp [children, found]
    · rw [if_neg here, Option.map_map, children]
      simp only [Ne.symm here, if_false]
      rfl

/-! ### The invariant -/

structure Arranged (t : Ast) : Prop where
  root_lt_size : root < t.size
  parent?_root : t.parent? root = none
  exists_parent : ∀ {x}, x ≠ root → x < t.size → ∃ p, t.parent? x = some p
  parent_lt : ∀ {x p}, t.parent? x = some p → p < x
  getElem?_children : ∀ {p c k},
    (t.children p)[k]? = some c ↔ t.parent? c = some p ∧ t.rank c = k

theorem arranged_new (kind : String) (value : Option String) : (new kind value).Arranged := by
  refine ⟨Nat.zero_lt_one, rfl, ?_, ?_, ?_⟩
  · intro x other present
    exact (other (Nat.lt_one_iff.mp present)).elim
  · intro x p linked
    rw [parent?_new] at linked
    cases linked
  · intro p c k
    simp [children_new, parent?_new]

theorem Arranged.push (arranged : t.Arranged) (present : parent < t.size) (kind : String)
    (value : Option String) : (t.push parent kind value).Arranged := by
  have fresh : ∀ p, t.parent? t.size ≠ some p := fun p linked =>
    Nat.lt_irrefl _ (lt_size_of_parent? linked)
  refine ⟨?_, ?_, ?_, ?_, ?_⟩
  · rw [size_push]
    exact Nat.succ_pos _
  · rw [parent?_push, if_neg (Nat.ne_of_lt arranged.root_lt_size)]
    exact arranged.parent?_root
  · intro x other bound
    rw [size_push] at bound
    rw [parent?_push]
    split
    · exact ⟨parent, rfl⟩
    · exact arranged.exists_parent other (by omega)
  · intro x p linked
    rw [parent?_push] at linked
    split at linked
    · cases linked
      omega
    · exact arranged.parent_lt linked
  · intro p c k
    rw [parent?_push, rank_push, children_push present]
    by_cases new : c = t.size
    · -- The new node is in no old list, and at the end of its parent's.
      subst new
      have unlisted : ∀ p k, (t.children p)[k]? ≠ some t.size := fun p k listed =>
        fresh p (arranged.getElem?_children.mp listed).1
      rw [if_pos rfl, if_pos rfl]
      by_cases here : p = parent
      · subst here
        simp only [if_true, getElem?_concat_eq_some_iff, unlisted, false_or, and_true, true_and]
        exact eq_comm
      · simp [here, Ne.symm here, unlisted]
    · rw [if_neg new, if_neg new, ← arranged.getElem?_children]
      by_cases here : p = parent
      · subst here
        simp [getElem?_concat_eq_some_iff, Ne.symm new]
      · rw [if_neg here]

theorem Grown.arranged (grown : t.Grown) : t.Arranged := by
  induction grown with
  | new kind value => exact arranged_new kind value
  | push _ present kind value ih => exact ih.push present kind value

namespace Arranged

theorem mem_children_iff (arranged : t.Arranged) {p c : Nat} :
    c ∈ t.children p ↔ t.parent? c = some p := by
  rw [List.mem_iff_getElem?]
  constructor
  · rintro ⟨k, listed⟩
    exact (arranged.getElem?_children.mp listed).1
  · intro linked
    exact ⟨t.rank c, arranged.getElem?_children.mpr ⟨linked, rfl⟩⟩

theorem lt_of_mem_children (arranged : t.Arranged) {p c : Nat} (member : c ∈ t.children p) :
    p < c ∧ c < t.size := by
  have linked := arranged.mem_children_iff.mp member
  exact ⟨arranged.parent_lt linked, lt_size_of_parent? linked⟩

theorem nodup_children (arranged : t.Arranged) (p : Nat) : (t.children p).Nodup := by
  apply List.pairwise_iff_getElem.mpr
  intro i j hi hj before same
  have first := (arranged.getElem?_children.mp (List.getElem?_eq_getElem hi)).2
  have second := (arranged.getElem?_children.mp (List.getElem?_eq_getElem hj)).2
  rw [same] at first
  omega

end Arranged
end LeafPaths.Ast
