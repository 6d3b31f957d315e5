import LeafPaths.Proofs.Ast.Route
import LeafPaths.Proofs.Extraction

/-!
Pulling the contexts of a list of nodes: in as many goes as one likes, and past the end. What comes
out belongs to the pairs of positions, one after the other, whatever nodes are listed.
-/

namespace LeafPaths

theorem mem_positionPairs_iff {n i j : Nat} : (i, j) ∈ positionPairs n ↔ i < j ∧ j < n := by
  simp only [positionPairs, rowPairs, List.mem_flatMap, List.mem_map, List.mem_filter,
    List.mem_range, decide_eq_true_eq, Prod.mk.injEq]
  constructor
  · rintro ⟨row, -, column, ⟨inside, before⟩, rfl, rfl⟩
    exact ⟨before, inside⟩
  · rintro ⟨before, inside⟩
    exact ⟨i, Nat.lt_trans before inside, j, ⟨inside, before⟩, rfl, rfl⟩

theorem pairwise_positionPairs (n : Nat) :
    (positionPairs n).Pairwise (Prod.Lex (· < ·) (· < ·)) := by
  rw [positionPairs, List.pairwise_flatMap]
  constructor
  · intro i _
    rw [rowPairs, List.pairwise_map]
    exact (List.pairwise_lt_range.filter _).imp fun before => Prod.Lex.right i before
  · apply List.pairwise_lt_range.imp
    intro i j before p first q second
    obtain ⟨_, -, rfl⟩ := List.mem_map.mp first
    obtain ⟨_, -, rfl⟩ := List.mem_map.mp second
    exact Prod.Lex.left _ _ before

theorem length_orderedPairs {α : Type} (as : List α) :
    (orderedPairs as).length = as.length * (as.length - 1) / 2 := by
  have twice : 2 * (orderedPairs as).length + as.length = as.length * as.length := by
    induction as with
    | nil => rfl
    | cons a later ih =>
      rw [orderedPairs, List.length_append, List.length_map, List.length_cons, Nat.mul_succ,
        Nat.succ_mul later.length]
      omega
  rw [Nat.mul_sub_one]
  omega

namespace Ast

variable {t : Ast} {limits : Limits} {x start finish : Nat} {c : Context}

/-- The context that the nodes at two positions of a list have. -/
def Joins (t : Ast) (limits : Limits) (nodes : List Nat) (i j : Nat) (c : Context) : Prop :=
  ∃ start finish path a b, nodes[i]? = some start ∧ nodes[j]? = some finish ∧ start ≠ finish ∧
    t.path? limits start finish = some path ∧ t.value? start = some a ∧ t.value? finish = some b ∧
    c = ⟨a, path.text, b⟩

theorem context?_eq_some_iff :
    t.context? limits start finish = some c ↔
      ∃ path a b, t.path? limits start finish = some path ∧ t.value? start = some a ∧
        t.value? finish = some b ∧ c = ⟨a, path.text, b⟩ := by
  rw [context?]
  constructor
  · intro found
    split at found
    next path a b way first last =>
      exact ⟨path, a, b, way, first, last, (Option.some.inj found).symm⟩
    next => cases found
  · rintro ⟨path, a, b, way, first, last, rfl⟩
    rw [way, first, last]

theorem ne_of_path? {path : Path} (found : t.path? limits start finish = some path) :
    start ≠ finish := by
  rintro rfl
  rw [path?, if_pos rfl] at found
  cases found

theorem contextAt?_eq_some_iff {nodes : List Nat} {p : Nat × Nat}
    (member : p ∈ positionPairs nodes.length) :
    Pairs.contextAt? t limits nodes.toArray p = some c ↔ t.Joins limits nodes p.1 p.2 c := by
  obtain ⟨before, inside⟩ := mem_positionPairs_iff.mp member
  have inside' : p.1 < nodes.length := Nat.lt_trans before inside
  have first : nodes.toArray.getD p.1 root = nodes[p.1] := by simp [Array.getD, inside']
  have second : nodes.toArray.getD p.2 root = nodes[p.2] := by simp [Array.getD, inside]
  rw [Pairs.contextAt?, first, second, context?_eq_some_iff]
  constructor
  · rintro ⟨path, a, b, way, rest⟩
    exact ⟨_, _, path, a, b, List.getElem?_eq_getElem inside', List.getElem?_eq_getElem inside,
      ne_of_path? way, way, rest⟩
  · rintro ⟨start, finish, path, a, b, listed, listed', -, rest⟩
    rw [List.getElem?_eq_getElem inside'] at listed
    rw [List.getElem?_eq_getElem inside] at listed'
    obtain rfl := Option.some.inj listed
    obtain rfl := Option.some.inj listed'
    exact ⟨path, a, b, rest⟩

/-! ### Limits that admit every path -/

namespace Arranged

variable (arranged : t.Arranged)
include arranged

theorem depth_le (x : Nat) : t.depth x ≤ x := by
  induction x using Nat.strongRecOn with
  | ind x ih =>
    cases link : t.parent? x with
    | none =>
      rw [depth, link]
      exact Nat.zero_le x
    | some p =>
      have before := arranged.parent_lt link
      have shallower := ih p before
      rw [arranged.depth_of_parent link]
      omega

theorem length_children_le (x : Nat) : (t.children x).length ≤ t.size := by
  have within : t.children x ⊆ List.range t.size := by
    intro c member
    exact List.mem_range.mpr (arranged.lt_of_mem_children member).2
  have shorter := (arranged.nodup_children x).length_le_of_subset within
  rwa [List.length_range] at shorter

theorem isSome_path? (hs : start < t.size) (hf : finish < t.size) (different : start ≠ finish)
    (long : 2 * t.size ≤ limits.length) (wide : 2 * t.size ≤ limits.width) :
    (t.path? limits start finish).isSome := by
  obtain ⟨top, up, down, turn, climb, climb'⟩ := arranged.exists_climbs hs hf
  have admitted : ¬ t.Refused limits top start finish := by
    rintro (same | longer | ⟨-, -, i, j, a, b, listed, -, listed', -, apart⟩)
    · exact different same
    · have first := arranged.depth_le start
      have second := arranged.depth_le finish
      omega
    · obtain ⟨first, -⟩ := List.getElem?_eq_some_iff.mp listed
      obtain ⟨second, -⟩ := List.getElem?_eq_some_iff.mp listed'
      have few := arranged.length_children_le top
      omega
  rw [(arranged.path?_of_turn turn climb climb' limits).2 admitted]
  rfl

theorem length_filterMap_context? {nodes : List Nat} (distinct : nodes.Nodup)
    (valued : ∀ id ∈ nodes, (t.value? id).isSome) (long : 2 * t.size ≤ limits.length)
    (wide : 2 * t.size ≤ limits.width) :
    ((orderedPairs nodes).filterMap fun ends => t.context? limits ends.1 ends.2).length =
      nodes.length * (nodes.length - 1) / 2 := by
  have present : ∀ id ∈ nodes, id < t.size := by
    intro id member
    obtain ⟨v, found⟩ := Option.isSome_iff_exists.mp (valued id member)
    obtain ⟨n, there, -⟩ := Option.bind_eq_some_iff.mp found
    exact lt_size_of_node? there
  rw [← length_orderedPairs, List.filterMap_length_eq_length]
  intro ends member
  obtain ⟨first, second⟩ := mem_of_mem_orderedPairs member
  have different : ends.1 ≠ ends.2 := forall_mem_orderedPairs.mpr distinct ends member
  obtain ⟨a, start⟩ := Option.isSome_iff_exists.mp (valued _ first)
  obtain ⟨b, finish⟩ := Option.isSome_iff_exists.mp (valued _ second)
  obtain ⟨path, way⟩ := Option.isSome_iff_exists.mp
    (arranged.isSome_path? (present _ first) (present _ second) different long wide)
  rw [context?, way, start, finish]
  rfl

end Arranged
end Ast

namespace Pairs

variable {t : Ast} {limits : Limits}

theorem remaining_of_positions (nodes : List Nat) :
    (of nodes).remaining t limits =
      (positionPairs nodes.length).filterMap (contextAt? t limits nodes.toArray) := by
  rw [remaining, ahead_of]
  rfl

/-- Whatever the goes in which the contexts are taken, they are those of the pairs of positions, in
lexicographic order and each once. After the last one nothing comes any more. -/
theorem contexts_of_any_schedule (grown : t.Grown) (limits : Limits) (nodes : List Nat) :
    let pull : Pull Pairs Context := next t limits
    let pairs := positionPairs nodes.length
    let contexts := pairs.filterMap (contextAt? t limits nodes.toArray)
    (∀ i j, (i, j) ∈ pairs ↔ i < j ∧ j < nodes.length) ∧
      pairs.Pairwise (Prod.Lex (· < ·) (· < ·)) ∧
      (∀ p ∈ pairs, ∀ c, contextAt? t limits nodes.toArray p = some c ↔
        t.Joins limits nodes p.1 p.2 c) ∧
      (∀ counts,
        let state := (pull.inParts counts (of nodes)).2
        (pull.inParts counts (of nodes)).1.flatten = contexts.take counts.sum ∧
          (∀ n, (pull (pull.after n state)).1 = contexts[counts.sum + n]?) ∧
          ((pull state).1 = none → ∀ n, (pull (pull.after n state)).1 = none)) ∧
      (nodes.Nodup → (∀ id ∈ nodes, (t.value? id).isSome) → 2 * t.size ≤ limits.length →
        2 * t.size ≤ limits.width →
          contexts.length = nodes.length * (nodes.length - 1) / 2) := by
  intro pull pairs contexts
  have enumerates := enumerates_next t limits
  have all : (of nodes).remaining t limits = contexts := remaining_of_positions nodes
  refine ⟨fun i j => mem_positionPairs_iff, pairwise_positionPairs nodes.length,
    fun p member c => Ast.contextAt?_eq_some_iff member, ?_, ?_⟩
  · intro counts state
    obtain ⟨taken, left⟩ := enumerates.inParts counts (of nodes)
    rw [all] at taken left
    refine ⟨taken, ?_, enumerates.ended⟩
    intro n
    rw [enumerates.pull_after, left, List.getElem?_drop]
  · intro distinct valued long wide
    rw [← all, remaining_of]
    exact grown.arranged.length_filterMap_context? distinct valued long wide

/-- The contexts of four arguments, the first two of them, then none, then all that are left. -/
theorem contexts_of_any_schedule_of_arguments :
    Ast.argumentsTree.Grown ∧
      ((Pull.inParts (next Ast.argumentsTree ⟨10, 10⟩) [2, 0, 9] (of [1, 2, 3, 4])).1.flatten).length =
        6 ∧
      (next Ast.argumentsTree ⟨10, 10⟩ (Pull.after (next Ast.argumentsTree ⟨10, 10⟩) 3
        (Pull.inParts (next Ast.argumentsTree ⟨10, 10⟩) [2, 0, 9] (of [1, 2, 3, 4])).2)).1 = none := by
  obtain ⟨-, -, -, goes, full⟩ :=
    contexts_of_any_schedule Ast.grown_argumentsTree ⟨10, 10⟩ [1, 2, 3, 4]
  have six := full (by decide) (by decide) (by decide) (by decide)
  obtain ⟨taken, more, -⟩ := goes [2, 0, 9]
  refine ⟨Ast.grown_argumentsTree, ?_, ?_⟩
  · rw [taken, List.length_take, six]
    rfl
  · rw [more]
    apply List.getElem?_eq_none
    rw [six]
    decide

end Pairs
end LeafPaths
