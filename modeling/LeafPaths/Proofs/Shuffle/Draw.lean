import Mathlib.Data.Nat.Factorial.Basic
import LeafPaths.Shuffle

/-!
Why a shuffle stays within its list. A draw is below the product that it was made for, and what is
left of it stays below the product of the factors that it still has to serve; so the position that
is drawn for position `i` is at most `i`.
-/

namespace LeafPaths.Shuffle

variable {words : Nat → UInt32} {i n : Nat} {s : State}

/-! ### Products of consecutive numbers -/

theorem extend_spec {room product next count : Nat} (small : product < UInt32.size)
    (product_eq : product = n.ascFactorial count) (next_eq : next = n + count) :
    let found := extend room product next count
    found.1 = n.ascFactorial found.2 ∧ count ≤ found.2 ∧ found.1 < UInt32.size := by
  induction room generalizing product next count with
  | zero => exact ⟨product_eq, Nat.le_refl _, small⟩
  | succ room ih =>
    rw [extend]
    split
    next fits =>
      have longer : product * next = n.ascFactorial (count + 1) := by
        rw [product_eq, next_eq, Nat.ascFactorial_succ, Nat.mul_comm]
      have after : next + 1 = n + (count + 1) := by omega
      obtain ⟨value, more, bounded⟩ := ih fits longer after
      exact ⟨value, Nat.le_of_succ_le more, bounded⟩
    next => exact ⟨product_eq, Nat.le_refl _, small⟩

/-- The bound is a product of consecutive numbers from `n` on, of at least one, and fits a word. -/
theorem bound_spec (small : n < UInt32.size) :
    (bound n).1 = n.ascFactorial (bound n).2 ∧ 1 ≤ (bound n).2 ∧ (bound n).1 < UInt32.size :=
  extend_spec small (by simp [Nat.ascFactorial_succ]) rfl

theorem div_lt_ascFactorial {chunk k : Nat} (below : chunk < n.ascFactorial (k + 1)) :
    chunk / n < (n + 1).ascFactorial k := by
  rw [Nat.ascFactorial_succ, ← Nat.succ_ascFactorial] at below
  exact Nat.div_lt_of_lt_mul below

/-! ### Draws -/

/-- The high half of a word's product with the limit, and the same with the carry from the next
word, which adds less than one more limit to the product. -/
theorem high_add_carry_lt {w w' limit : Nat} (positive : 0 < limit) (first : w < UInt32.size)
    (second : w' < UInt32.size) :
    w * limit / UInt32.size + (w * limit % UInt32.size + w' * limit / UInt32.size) / UInt32.size <
      limit := by
  have carried : w' * limit / UInt32.size < limit := by
    apply Nat.div_lt_of_lt_mul
    exact Nat.mul_lt_mul_of_pos_right second positive
  have total : w * limit + w' * limit / UInt32.size < UInt32.size * limit := by
    have product : (w + 1) * limit ≤ UInt32.size * limit := Nat.mul_le_mul_right limit first
    rw [Nat.add_mul, Nat.one_mul] at product
    omega
  calc w * limit / UInt32.size + (w * limit % UInt32.size + w' * limit / UInt32.size) / UInt32.size
      = (w * limit % UInt32.size + w' * limit / UInt32.size +
          UInt32.size * (w * limit / UInt32.size)) / UInt32.size := by
        rw [Nat.add_mul_div_left _ _ (by decide), Nat.add_comm]
    _ = (w * limit + w' * limit / UInt32.size) / UInt32.size := by
        rw [Nat.add_right_comm, Nat.mod_add_div]
    _ < limit := Nat.div_lt_of_lt_mul total

theorem draw_lt {position limit : Nat} (positive : 0 < limit) :
    (draw words position limit).1 < limit := by
  have carried := high_add_carry_lt positive (words position).toNat_lt
    (words (position + 1)).toNat_lt
  rw [draw]
  dsimp only
  split
  · exact carried
  · exact Nat.lt_of_le_of_lt (Nat.le_add_right _ _) carried

/-! ### The state between draws -/

/-- The state can serve position `i` and as many positions after it as it tells. -/
def State.Serves (s : State) (i : Nat) : Prop := s.left ≠ 0 → s.chunk < (i + 1).ascFactorial s.left

theorem serves_start : State.start.Serves 0 := by
  intro _
  decide

theorem State.Serves.supply (words : Nat → UInt32) (serves : s.Serves i)
    (small : i + 1 < UInt32.size) :
    (s.supply words i).Serves i ∧ (s.supply words i).left ≠ 0 := by
  rw [State.supply]
  split
  next =>
    -- A fresh draw is below the product of all the factors that it has to serve.
    obtain ⟨value, some_factor, -⟩ := bound_spec small
    refine ⟨fun _ => ?_, Nat.ne_of_gt some_factor⟩
    rw [← value]
    apply draw_lt
    rw [value]
    exact Nat.ascFactorial_pos i _
  next left => exact ⟨serves, left⟩

theorem State.Serves.choose (words : Nat → UInt32) (serves : s.Serves i)
    (small : i + 1 < UInt32.size) :
    (s.choose words i).1 ≤ i ∧ (s.choose words i).2.Serves (i + 1) := by
  obtain ⟨serves, left⟩ := serves.supply words small
  rw [State.choose]
  generalize s.supply words i = s at serves left
  have below := serves left
  obtain ⟨k, more⟩ := Nat.exists_eq_add_one_of_ne_zero left
  rw [more] at below
  split
  next last =>
    -- With one factor left, all of the chunk is the choice.
    refine ⟨?_, fun impossible => (impossible rfl).elim⟩
    obtain rfl : k = 0 := by omega
    simp [Nat.ascFactorial_succ] at below
    omega
  next =>
    refine ⟨Nat.le_of_lt_succ (Nat.mod_lt _ (Nat.succ_pos i)), fun _ => ?_⟩
    rw [more]
    exact div_lt_ascFactorial below

/-! ### The state in a run -/

def State.after (words : Nat → UInt32) : (count i : Nat) → State → State
  | 0, _, s => s
  | count + 1, i, s => (s.choose words i).2.after words count (i + 1)

theorem State.Serves.after (words : Nat → UInt32) (serves : s.Serves i)
    (small : i + n < UInt32.size) : (s.after words n i).Serves (i + n) := by
  induction n generalizing i s with
  | zero => exact serves
  | succ n ih =>
    rw [State.after, show i + (n + 1) = i + 1 + n by omega]
    exact ih (serves.choose words (by omega)).2 (by omega)

theorem length_choices (words : Nat → UInt32) (n i : Nat) (s : State) :
    (choices words n i s).length = n := by
  induction n generalizing i s with
  | zero => rfl
  | succ n ih => rw [choices, List.length_cons, ih]

theorem getElem?_choices (words : Nat → UInt32) {k : Nat} (within : k < n) :
    (choices words n i s)[k]? = some ((s.after words k i).choose words (i + k)).1 := by
  induction n generalizing i s k with
  | zero => cases within
  | succ n ih =>
    rw [choices]
    cases k with
    | zero => rfl
    | succ k =>
      rw [List.getElem?_cons_succ, ih (Nat.lt_of_succ_lt_succ within), State.after,
        show i + (k + 1) = i + 1 + k by omega]

/-- No position is swapped with a later one. -/
theorem choices_le (serves : s.Serves i) (small : i + n < UInt32.size) {k j : Nat}
    (chosen : (choices words n i s)[k]? = some j) : j ≤ i + k := by
  have within : k < n := by
    have present := (List.getElem?_eq_some_iff.mp chosen).1
    rwa [length_choices] at present
  rw [getElem?_choices words within] at chosen
  obtain rfl := Option.some.inj chosen
  exact ((serves.after words (n := k) (by omega)).choose words (by omega)).1

end LeafPaths.Shuffle
