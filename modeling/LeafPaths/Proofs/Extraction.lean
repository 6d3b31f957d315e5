import LeafPaths.Extraction
import LeafPaths.Proofs.Ast.Preorder
import LeafPaths.Proofs.Context.Pairs

/-!
Extraction against the plain reading of it: list the nodes with values in pre-order, go through all
pairs of positions, keep those that have a path within the limits, and cut the list off at the most
contexts that are wanted.
-/

namespace LeafPaths

variable {t : Ast} {limits : Limits} {nodes : List Nat}

namespace Ast

def valuedNodes (t : Ast) : List Nat :=
  (t.preorder root).filter fun id => (t.value? id).isSome

/-- The pairs of the listed nodes that have a path, the node listed first being the start. -/
def acceptedPairs (t : Ast) (limits : Limits) (nodes : List Nat) : List (Nat × Nat) :=
  ((positionPairs nodes.length).map fun positions =>
    (nodes.getD positions.1 root, nodes.getD positions.2 root)).filter fun ends =>
      (t.path? limits ends.1 ends.2).isSome

def contextOf (t : Ast) (limits : Limits) (ends : Nat × Nat) : Context :=
  { start := (t.value? ends.1).getD ""
    path := ((t.path? limits ends.1 ends.2).map Path.text).getD ""
    finish := (t.value? ends.2).getD "" }

theorem acceptedPairs_eq (limits : Limits) (nodes : List Nat) :
    t.acceptedPairs limits nodes =
      (orderedPairs nodes).filter fun ends => (t.path? limits ends.1 ends.2).isSome := by
  rw [acceptedPairs, map_positionPairs]

theorem context?_of_valued (limits : Limits) {start finish : Nat} (valued : (t.value? start).isSome)
    (valued' : (t.value? finish).isSome) :
    t.context? limits start finish =
      if (t.path? limits start finish).isSome then some (t.contextOf limits (start, finish))
      else none := by
  obtain ⟨a, first⟩ := Option.isSome_iff_exists.mp valued
  obtain ⟨b, last⟩ := Option.isSome_iff_exists.mp valued'
  cases found : t.path? limits start finish <;> simp [context?, contextOf, first, last, found]

end Ast

theorem remaining_of_valued (valued : ∀ id ∈ nodes, (t.value? id).isSome) :
    (Pairs.of nodes).remaining t limits =
      (t.acceptedPairs limits nodes).map (t.contextOf limits) := by
  rw [Pairs.remaining_of, Ast.acceptedPairs_eq, ← List.filterMap_eq_map, List.filterMap_filter]
  apply List.filterMap_congr
  intro ends member
  obtain ⟨first, second⟩ := mem_of_mem_orderedPairs member
  simpa using Ast.context?_of_valued limits (valued _ first) (valued _ second)

namespace Ast

theorem remaining_leaves (arranged : t.Arranged) (limits : Limits) :
    (Pairs.of t.leaves).remaining t limits =
      (t.acceptedPairs limits t.valuedNodes).map (t.contextOf limits) := by
  rw [arranged.leaves_eq_filter]
  apply remaining_of_valued
  intro id member
  exact (List.mem_filter.mp member).2

theorem extract_eq_take (t : Ast) (settings : Settings) :
    t.extract settings =
      ((Pairs.of t.leaves).remaining t settings.limits).take settings.maxContexts.toNat :=
  ((Pairs.enumerates_next t settings.limits).take _ _).1

/-- What is extracted are the contexts of the accepted pairs, up to the cap. The stream hands out
no context that is not taken: those that it hands out afterwards are the ones that follow. -/
theorem extract_eq_take_accepted (grown : t.Grown) (settings : Settings) :
    let accepted := t.acceptedPairs settings.limits t.valuedNodes
    let contexts := accepted.map (t.contextOf settings.limits)
    let cap := settings.maxContexts.toNat
    let pull : Pull Pairs Context := Pairs.next t settings.limits
    let stopped := (settings.quota.collect pull (.of t.leaves)).2
    t.extract settings = contexts.take cap ∧
      settings.quota.collect pull.counted (.of t.leaves, 0) =
        (t.extract settings, stopped, min cap accepted.length) ∧
      (∀ n, (Pull.take pull n stopped).1 = (contexts.drop cap).take n) ∧
      (settings.quota.isFilled (t.extract settings).length = true ↔ cap ≤ accepted.length) := by
  intro accepted contexts cap pull stopped
  have left := remaining_leaves grown.arranged settings.limits
  obtain ⟨taken, after⟩ :=
    (Pairs.enumerates_next t settings.limits).take cap (.of t.leaves)
  rw [left] at taken after
  have extracted : t.extract settings = contexts.take cap := taken
  have count : (t.extract settings).length = min cap accepted.length := by
    rw [extracted, List.length_take, List.length_map]
  refine ⟨extracted, ?_, ?_, ?_⟩
  · rw [Quota.collect, Pull.take_counted, Nat.zero_add, ← count]
    rfl
  · intro n
    rw [((Pairs.enumerates_next t settings.limits).take n stopped).1]
    exact congrArg (List.take n) after
  · rw [Quota.isFilled, decide_eq_true_eq, count]
    exact Nat.le_min.trans (and_iff_right (Nat.le_refl _))

def argumentsTree : Ast :=
  ((((new "argument_list" none).push 0 "identifier" (some "a")).push 0 "identifier" (some "b")).push 0
    "identifier" (some "c")).push 0 "identifier" (some "d")

theorem grown_argumentsTree : argumentsTree.Grown :=
  .push (.push (.push (.push (.new _ _) (by decide) _ _) (by decide) _ _) (by decide) _ _)
    (by decide) _ _

theorem extract_eq_take_accepted_of_arguments :
    argumentsTree.Grown ∧
      (⟨8, 2, 4⟩ : Settings).quota.isFilled (argumentsTree.extract ⟨8, 2, 4⟩).length = true := by
  have five : (argumentsTree.acceptedPairs ⟨8, 2⟩ argumentsTree.valuedNodes).length = 5 := by
    decide +kernel
  refine ⟨grown_argumentsTree, ?_⟩
  apply (extract_eq_take_accepted grown_argumentsTree ⟨8, 2, 4⟩).2.2.2.mpr
  rw [show (⟨8, 2, 4⟩ : Settings).limits = ⟨8, 2⟩ from rfl, five]
  decide

end Ast
end LeafPaths
