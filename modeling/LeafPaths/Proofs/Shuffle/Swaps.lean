import LeafPaths.Proofs.Shuffle.Draw

/-!
Every swap of a shuffle is in bounds: the draws, what is left of them and the factors that they
have to serve keep their limits in each turn of a run.
-/

namespace LeafPaths.Shuffle

variable {α : Type} {words : Nat → UInt32} {i : Nat} {s : State}

/-- The swaps, each made only if both of its positions are in the array. -/
def swaps? (xs : Array α) : (i : Nat) → List Nat → Option (Array α)
  | _, [] => some xs
  | i, j :: js =>
    if i < xs.size ∧ j < xs.size then swaps? (xs.swapIfInBounds i j) (i + 1) js else none

/-- The turn of position `i` from the state `s` keeps to its limits. -/
structure State.Bounded (words : Nat → UInt32) (i : Nat) (s : State) : Prop where
  bound_eq : (bound (i + 1)).1 = (i + 1).ascFactorial (bound (i + 1)).2
  one_le_factors : 1 ≤ (bound (i + 1)).2
  bound_lt : (bound (i + 1)).1 < UInt32.size
  /-- With the carry, too, a draw is below the product that it is made for. -/
  draw_lt : (draw words s.position (bound (i + 1)).1).1 < (bound (i + 1)).1
  /-- One factor is used up, so there was one. -/
  left_eq : (s.supply words i).left = (s.choose words i).2.left + 1
  chunk_lt : (s.supply words i).chunk < (i + 1).ascFactorial (s.supply words i).left
  choice_le : (s.choose words i).1 ≤ i

theorem State.left_choose (some_left : (s.supply words i).left ≠ 0) :
    (s.supply words i).left = (s.choose words i).2.left + 1 := by
  rw [State.choose]
  split
  next last => exact last
  next => exact (Nat.sub_add_cancel (Nat.pos_of_ne_zero some_left)).symm

theorem State.Serves.bounded (words : Nat → UInt32) (serves : s.Serves i)
    (small : i + 1 < UInt32.size) : s.Bounded words i := by
  obtain ⟨value, factors, fits⟩ := bound_spec small
  obtain ⟨supplied, some_left⟩ := serves.supply words small
  refine ⟨value, factors, fits, ?_, left_choose some_left, supplied some_left,
    (serves.choose words small).1⟩
  apply Shuffle.draw_lt
  rw [value]
  exact Nat.ascFactorial_pos i _

theorem swaps?_eq_some {xs : Array α} {js : List Nat} (within : i + js.length ≤ xs.size)
    (earlier : ∀ k j, js[k]? = some j → j ≤ i + k) : swaps? xs i js = some (swaps xs i js) := by
  induction js generalizing xs i with
  | nil => rfl
  | cons j js ih =>
    have first : j ≤ i := earlier 0 j rfl
    rw [List.length_cons] at within
    rw [swaps?, swaps, if_pos (by omega)]
    apply ih
    · rw [Array.size_swapIfInBounds]
      omega
    · intro k j' chosen
      have later := earlier (k + 1) j' chosen
      omega

/-- A list of fewer than 2^32 items is shuffled by as many swaps as it has items, each of a position
with one that is not after it, whatever the words are. -/
theorem shuffle_within_bounds (words : Nat → UInt32) (xs : List α)
    (short : xs.length < UInt32.size) :
    let chosen := choices words xs.length 0 .start
    chosen.length = xs.length ∧
      (∀ i < xs.length, (State.start.after words i 0).Bounded words i ∧
        chosen[i]? = some ((State.start.after words i 0).choose words i).1) ∧
      (∀ i j : Nat, chosen[i]? = some j → j ≤ i) ∧
      swaps? xs.toArray 0 chosen = some (shuffleBy words xs).toArray := by
  intro chosen
  have length : chosen.length = xs.length := length_choices words _ _ _
  have earlier : ∀ i j : Nat, chosen[i]? = some j → j ≤ 0 + i := fun i j =>
    choices_le serves_start (by omega)
  refine ⟨length, ?_, ?_, ?_⟩
  · intro i within
    have serves := serves_start.after words (n := i) (by omega)
    have here := getElem?_choices words (s := .start) (i := 0) within
    rw [Nat.zero_add] at serves here
    exact ⟨serves.bounded words (by omega), here⟩
  · intro i j here
    have before := earlier i j here
    omega
  · rw [swaps?_eq_some _ earlier, shuffleBy, Array.toArray_toList]
    rw [length, List.size_toArray]
    omega

def carriedWords (k : Nat) : UInt32 := if k = 0 then 8 else 4294967295

/-- The first draw serves the positions from 1 to 11, so position 12 takes another one. -/
theorem shuffle_within_bounds_of_carry :
    (List.range 14).length < UInt32.size ∧ draw carriedWords 0 (bound 2).1 = (1, 2) ∧
      (State.start.after carriedWords 12 0).left = 0 ∧
      (State.start.after carriedWords 12 0).Bounded carriedWords 12 ∧
      swaps? (List.range 14).toArray 0 (choices carriedWords 14 0 .start) =
        some (shuffleBy carriedWords (List.range 14)).toArray := by
  have short : (List.range 14).length < UInt32.size := by decide
  obtain ⟨-, bounded, -, swapped⟩ := shuffle_within_bounds carriedWords (List.range 14) short
  exact ⟨short, by decide +kernel, by decide +kernel, (bounded 12 (by decide)).1, swapped⟩

end LeafPaths.Shuffle
