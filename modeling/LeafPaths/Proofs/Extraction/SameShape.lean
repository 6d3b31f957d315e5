import Mathlib.Data.Set.Function
import LeafPaths.Proofs.Ast.Embedding
import LeafPaths.Proofs.Extraction

/-!
The numbers of the nodes play no part in an extraction. Two trees of one shape, whatever the order
in which their nodes were added, have the same paths between corresponding nodes, and the same
contexts in the same order.
-/

namespace LeafPaths.Ast

/-- `f` takes the nodes of `t` to those of `u`, one to one, with their kinds, their values and the
order of their children. -/
structure SameShape (t u : Ast) (f : Nat → Nat) : Prop where
  bijective : Set.BijOn f {x | x < t.size} {y | y < u.size}
  root : f root = root
  kind : ∀ x < t.size, u.kind (f x) = t.kind x
  value? : ∀ x < t.size, u.value? (f x) = t.value? x
  children : ∀ x < t.size, u.children (f x) = (t.children x).map f

variable {t u : Ast} {f : Nat → Nat}

namespace SameShape

variable (same : t.SameShape u f)
include same

theorem embeds : t.Embeds u f where
  present inside := same.bijective.mapsTo inside
  injective inside inside' equal := same.bijective.injOn inside inside' equal
  kind inside := same.kind _ inside
  value? inside := same.value? _ inside
  children inside := same.children _ inside

theorem leaves (ht : t.Arranged) (hu : u.Arranged) : u.leaves = t.leaves.map f := by
  have nodes : u.preorder Ast.root = (t.preorder Ast.root).map f := by
    rw [← same.embeds.preorder ht hu ht.root_lt_size, same.root]
  rw [ht.leaves_eq_filter, hu.leaves_eq_filter, nodes, List.filter_map]
  congr 1
  apply List.filter_congr
  intro x member
  rw [Function.comp_apply, same.value? x (ht.mem_preorder_root_iff.mp member)]

end SameShape

/-- Extraction sees the shape of a tree and nothing of the order in which it grew. -/
theorem extract_eq_of_sameShape (grown : t.Grown) (grown' : u.Grown) (same : t.SameShape u f) :
    (∀ settings, u.extract settings = t.extract settings) ∧
      ∀ limits start finish, start < t.size → finish < t.size →
        u.path? limits (f start) (f finish) = t.path? limits start finish := by
  have ht := grown.arranged
  have hu := grown'.arranged
  refine ⟨?_, fun limits start finish hs hf => same.embeds.path? ht hu limits hs hf⟩
  intro settings
  have present : ∀ x ∈ t.leaves, x < t.size := by
    intro x member
    rw [ht.leaves_eq_filter] at member
    exact ht.mem_preorder_root_iff.mp (List.mem_filter.mp member).1
  rw [extract_eq_take, extract_eq_take, same.leaves ht hu, Pairs.remaining_of, Pairs.remaining_of,
    same.embeds.contexts ht hu settings.limits present]

def filledInDepth : Ast :=
  ((((new "module" none).push 0 "assignment" none).push 1 "identifier" (some "x")).push 1
    "integer" (some "1")).push 0 "identifier" (some "y")

def filledInBreadth : Ast :=
  ((((new "module" none).push 0 "assignment" none).push 0 "identifier" (some "y")).push 1
    "identifier" (some "x")).push 1 "integer" (some "1")

def levelOrder (x : Nat) : Nat := [0, 1, 3, 4, 2].getD x 0

theorem sameShape_levelOrder : filledInDepth.SameShape filledInBreadth levelOrder where
  bijective := by
    have into : ∀ x < filledInDepth.size, levelOrder x < filledInBreadth.size := by decide +kernel
    have apart : ∀ x < filledInDepth.size, ∀ y < filledInDepth.size,
        levelOrder x = levelOrder y → x = y := by decide +kernel
    have onto : ∀ y < filledInBreadth.size, ∃ x < filledInDepth.size, levelOrder x = y := by
      decide +kernel
    exact ⟨into, fun x hx y hy => apart x hx y hy, onto⟩
  root := rfl
  kind := by decide +kernel
  value? := by decide +kernel
  children := by decide +kernel

theorem extract_eq_of_sameShape_levelOrder :
    filledInDepth.Grown ∧ filledInBreadth.Grown ∧
      filledInDepth.SameShape filledInBreadth levelOrder ∧
      filledInBreadth.extract {} = filledInDepth.extract {} ∧
      filledInBreadth.path? ⟨8, 2⟩ 3 2 = filledInDepth.path? ⟨8, 2⟩ 2 4 := by
  have grown : filledInDepth.Grown :=
    .push (.push (.push (.push (.new _ _) (by decide) _ _) (by decide) _ _) (by decide) _ _)
      (by decide) _ _
  have grown' : filledInBreadth.Grown :=
    .push (.push (.push (.push (.new _ _) (by decide) _ _) (by decide) _ _) (by decide) _ _)
      (by decide) _ _
  obtain ⟨extracts, paths⟩ := extract_eq_of_sameShape grown grown' sameShape_levelOrder
  exact ⟨grown, grown', sameShape_levelOrder, extracts {},
    paths ⟨8, 2⟩ 2 4 (by decide) (by decide)⟩

end LeafPaths.Ast
