import Mathlib.Data.List.FinRange
import Mathlib.Data.List.NodupEquivFin
import LeafPaths.Shuffle

/-!
A shuffle moves positions and does not look at what stands there: one permutation, which the
source of the words and the length of the list give, tells from which position each item comes.
-/

namespace LeafPaths.Shuffle

variable {α β : Type}

theorem map_swapIfInBounds (f : α → β) (xs : Array α) (i j : Nat) :
    (xs.swapIfInBounds i j).map f = (xs.map f).swapIfInBounds i j := by
  apply Array.ext
  · simp
  · intro k hk hk'
    simp only [Array.getElem_map, Array.getElem_swapIfInBounds, Array.size_map]
    split
    · rfl
    · split <;> rfl

theorem map_swaps (f : α → β) (xs : Array α) (i : Nat) (js : List Nat) :
    (swaps xs i js).map f = swaps (xs.map f) i js := by
  induction js generalizing xs i with
  | nil => rfl
  | cons j js ih => rw [swaps, ih, map_swapIfInBounds, swaps]

theorem map_shuffle (f : α → β) (source : Source) (xs : List α) :
    (shuffle source xs).map f = shuffle source (xs.map f) := by
  rw [shuffle, shuffle, shuffleBy, shuffleBy, ← Array.toList_map, map_swaps, List.length_map]
  simp

theorem perm_shuffle (source : Source) (xs : List α) : (shuffle source xs).Perm xs :=
  perm_shuffleBy source.words xs

theorem length_shuffle (source : Source) (xs : List α) : (shuffle source xs).length = xs.length :=
  (perm_shuffle source xs).length_eq

/-- The position from which the shuffle of a list of length `n` takes each of its items. -/
def origin (source : Source) (n : Nat) : Equiv.Perm (Fin n) :=
  let moved := shuffle source (List.finRange n)
  have order : moved.Perm (List.finRange n) := perm_shuffle source _
  (finCongr (order.length_eq.trans List.length_finRange).symm).trans
    (List.Nodup.getEquivOfForallMemList moved (order.nodup_iff.mpr (List.nodup_finRange n))
      fun i => order.mem_iff.mpr (List.mem_finRange i))

theorem getElem?_shuffle (source : Source) {n : Nat} {xs : List α} (length : xs.length = n)
    (k : Fin n) : (shuffle source xs)[k.val]? = xs[(origin source n k).val]? := by
  subst length
  -- A list is the list of its positions, each replaced by what stands there.
  have moved : shuffle source xs = (shuffle source (List.finRange xs.length)).map xs.get := by
    rw [map_shuffle, List.map_get_finRange]
  have bound : k.val < (shuffle source (List.finRange xs.length)).length := by
    rw [length_shuffle, List.length_finRange]
    exact k.isLt
  rw [moved, List.getElem?_map, List.getElem?_eq_getElem bound, Option.map_some,
    List.getElem?_eq_getElem (origin source xs.length k).isLt]
  rfl

/-- An item that is changed before the shuffle is changed where the shuffle has moved it. -/
theorem shuffle_modify (source : Source) {n : Nat} {xs : List α} (length : xs.length = n) (i : Fin n)
    (f : α → α) :
    shuffle source (xs.modify i f) = (shuffle source xs).modify ((origin source n).symm i) f := by
  have length' : (xs.modify i f).length = n := by rw [List.length_modify, length]
  apply List.ext_getElem?
  intro k
  by_cases inside : k < n
  · have moved := getElem?_shuffle source length ⟨k, inside⟩
    have moved' := getElem?_shuffle source length' ⟨k, inside⟩
    have same : i.val = (origin source n ⟨k, inside⟩).val ↔ ((origin source n).symm i).val = k := by
      rw [← Fin.ext_iff, ← Equiv.symm_apply_eq, Fin.ext_iff]
    rw [moved', List.getElem?_modify, List.getElem?_modify, moved]
    simp only [same]
  · rw [List.getElem?_eq_none, List.getElem?_eq_none]
    · rw [List.length_modify, length_shuffle, length]
      exact Nat.le_of_not_lt inside
    · rw [length_shuffle, length']
      exact Nat.le_of_not_lt inside

end LeafPaths.Shuffle
