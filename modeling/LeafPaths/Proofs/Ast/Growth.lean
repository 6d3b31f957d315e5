import Mathlib.Data.List.Nodup
import Mathlib.Logic.Relation
import LeafPaths.Proofs.Ast.Ancestry

/-!
What is true of every tree that was made node by node: it is a finite rooted ordered tree, in which
the parents, the lists of children and the ranks agree with the order of the nodes. A new node
changes nothing of the old ones but the list that it is put at the end of.
-/

namespace LeafPaths.Ast

variable {t : Ast} {parent id : Nat} {kind : String} {value : Option String}

/-- The links of the tree, each in terms of the others. -/
structure Linked (t : Ast) : Prop where
  root_lt_size : root < t.size
  parent?_eq_none_iff : ∀ x < t.size, t.parent? x = none ↔ x = root
  parent_lt : ∀ x p, t.parent? x = some p → p < x
  at_rank : ∀ x p, t.parent? x = some p → ∀ k, (t.children p)[k]? = some x ↔ k = t.rank x
  of_listed : ∀ p k c, (t.children p)[k]? = some c → t.parent? c = some p ∧ t.rank c = k
  listed_once : ∀ x < t.size, x ≠ root →
    ∃ p < t.size, ∀ q, (t.children q).count x = if q = p then 1 else 0
  increasing : ∀ p, (t.children p).Pairwise (· < ·)
  reachable : ∀ x < t.size, Relation.ReflTransGen (fun p c => c ∈ t.children p) root x
  value?_ne_empty : ∀ x, t.value? x ≠ some ""

theorem valueOf_ne_empty : valueOf value ≠ some "" := by
  intro empty
  have passed := (Option.filter_eq_some_iff.mp empty).2
  simp at passed

/-! ### What each step adds -/

theorem increasing_push (arranged : t.Arranged) (present : parent < t.size)
    (increasing : ∀ p, (t.children p).Pairwise (· < ·)) (p : Nat) :
    ((t.push parent kind value).children p).Pairwise (· < ·) := by
  rw [children_push present]
  split
  · apply List.pairwise_append.mpr
    refine ⟨increasing parent, List.pairwise_singleton _ _, ?_⟩
    intro c member new single
    rw [List.mem_singleton.mp single]
    exact (arranged.lt_of_mem_children member).2
  · exact increasing p

theorem Grown.increasing (grown : t.Grown) (p : Nat) : (t.children p).Pairwise (· < ·) := by
  induction grown generalizing p with
  | new kind value =>
    rw [children_new]
    exact .nil
  | push grown present kind value ih => exact increasing_push grown.arranged present ih p

theorem Grown.value?_ne_empty (grown : t.Grown) (x : Nat) : t.value? x ≠ some "" := by
  induction grown generalizing x with
  | new kind value =>
    rw [value?_new]
    split
    · exact valueOf_ne_empty
    · exact (Option.some_ne_none _).symm
  | push _ _ kind value ih =>
    rw [value?_push]
    split
    · exact valueOf_ne_empty
    · exact ih x

/-! ### The whole tree -/

namespace Arranged

variable (arranged : t.Arranged)
include arranged

theorem parent?_eq_none_iff {x : Nat} (present : x < t.size) : t.parent? x = none ↔ x = root := by
  constructor
  · intro orphan
    by_cases first : x = root
    · exact first
    · obtain ⟨p, link⟩ := arranged.exists_parent first present
      rw [orphan] at link
      cases link
  · rintro rfl
    exact arranged.parent?_root

theorem count_children {x p : Nat} (link : t.parent? x = some p) (q : Nat) :
    (t.children q).count x = if q = p then 1 else 0 := by
  split
  · subst q
    exact List.count_eq_one_of_mem (arranged.nodup_children p) (arranged.mem_children_iff.mpr link)
  · rename_i other
    apply List.count_eq_zero.mpr
    intro member
    exact other (Option.some.inj ((arranged.mem_children_iff.mp member).symm.trans link))

theorem reaches_of_above {a x : Nat} (above : t.Above a x) :
    Relation.ReflTransGen (fun p c => c ∈ t.children p) a x := by
  induction above with
  | here => exact .refl
  | step link _ ih => exact ih.tail (arranged.mem_children_iff.mpr link)

end Arranged

theorem Grown.linked (grown : t.Grown) : t.Linked := by
  have arranged := grown.arranged
  refine ⟨arranged.root_lt_size, ?_, ?_, ?_, ?_, ?_, grown.increasing, ?_, grown.value?_ne_empty⟩
  · intro x present
    exact arranged.parent?_eq_none_iff present
  · intro x p link
    exact arranged.parent_lt link
  · intro x p link k
    rw [arranged.getElem?_children]
    simp [link, eq_comm]
  · intro p k c listed
    exact arranged.getElem?_children.mp listed
  · intro x present other
    obtain ⟨p, link⟩ := arranged.exists_parent other present
    exact ⟨p, Nat.lt_trans (arranged.parent_lt link) present, arranged.count_children link⟩
  · intro x present
    exact arranged.reaches_of_above (arranged.above_root present)

/-- A tree that was made node by node is linked throughout, and a further node leaves it as it is,
but for the new last child of one node. -/
theorem linked_and_kept_by_push (grown : t.Grown) :
    t.Linked ∧ ∀ parent < t.size, ∀ kind value,
      let u := t.push parent kind value
      u.Linked ∧ u.size = t.size + 1 ∧
        (∀ x < t.size, u.kind x = t.kind x ∧ u.value? x = t.value? x ∧
          u.parent? x = t.parent? x ∧ u.rank x = t.rank x) ∧
        (∀ p ≠ parent, u.children p = t.children p) ∧
        u.children parent = t.children parent ++ [t.size] ∧
        u.kind t.size = kind ∧ u.value? t.size = valueOf value ∧ u.parent? t.size = some parent := by
  refine ⟨grown.linked, ?_⟩
  intro parent present kind value u
  refine ⟨(grown.push present kind value).linked, size_push t parent kind value, ?_, ?_, ?_, ?_⟩
  · intro x old
    have other : ¬ x = t.size := Nat.ne_of_lt old
    exact ⟨kind_push.trans (if_neg other), value?_push.trans (if_neg other),
      parent?_push.trans (if_neg other), rank_push.trans (if_neg other)⟩
  · intro p other
    exact (children_push present).trans (if_neg other)
  · exact (children_push present).trans (if_pos rfl)
  · exact ⟨kind_push.trans (if_pos rfl), value?_push.trans (if_pos rfl),
      parent?_push.trans (if_pos rfl)⟩

def callTree : Ast :=
  (((new "call" none).push 0 "identifier" (some "f")).push 0 "argument_list" none).push 2
    "identifier" (some "x")

theorem callTree_linked_and_kept_by_push :
    callTree.Grown ∧ 2 < callTree.size ∧ (callTree.push 2 "string" (some "")).Linked ∧
      (callTree.push 2 "string" (some "")).children 2 = [3, 4] ∧
      (callTree.push 2 "string" (some "")).value? 4 = none := by
  have grown : callTree.Grown :=
    .push (.push (.push (.new _ _) (by decide) _ _) (by decide) _ _) (by decide) _ _
  obtain ⟨-, kept⟩ := linked_and_kept_by_push grown
  obtain ⟨linked, -, -, -, children, -, value, -⟩ := kept 2 (by decide) "string" (some "")
  exact ⟨grown, by decide, linked, children, value⟩

end LeafPaths.Ast
