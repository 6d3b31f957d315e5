import LeafPaths.Shuffle.KeyStream

/-!
Shuffling by a stream of random words. Position `i` is swapped with a position that is drawn from
`0` to `i`, for each `i` in turn. One word serves several positions: a draw below a product of
numbers is taken apart by division, as long as that product fits into a word.
-/

namespace LeafPaths.Shuffle

/-! ### Draws below a product -/

/-- Multiplies `product` by `next`, `next + 1` and so on while the result fits into a word, at most
`room` times. Gives the product, and the number of factors with the `count` that it had. -/
def extend : (room product next count : Nat) → Nat × Nat
  | 0, product, _, count => (product, count)
  | room + 1, product, next, count =>
    if product * next < UInt32.size then extend room (product * next) (next + 1) (count + 1)
    else (product, count)

/-- The largest product of `n`, `n + 1` and so on that fits into a word, and its number of factors.
From 2 on, 32 factors never fit. -/
def bound (n : Nat) : Nat × Nat := extend 32 n (n + 1) 1

/-- What is left of the last draw. -/
structure State where
  /-- To be divided by the positions to come. -/
  chunk : Nat
  /-- How many positions it still serves. -/
  left : Nat
  /-- The next word of the stream. -/
  position : Nat
  deriving DecidableEq, Repr

/-- At the start, position 0 is served: it can only stay. -/
def State.start : State := ⟨0, 1, 0⟩

/-- A number below `limit` from one word, or from two when the first leaves open whether the
product with more bits would have carried. -/
def draw (words : Nat → UInt32) (position limit : Nat) : Nat × Nat :=
  let product := (words position).toNat * limit
  let high := product / UInt32.size
  let low := product % UInt32.size
  if UInt32.size - limit < low then
    let carry := (low + (words (position + 1)).toNat * limit / UInt32.size) / UInt32.size
    (high + carry, position + 2)
  else (high, position + 1)

/-- A state that serves position `i`, from a new draw if need be. -/
def State.supply (words : Nat → UInt32) (i : Nat) (s : State) : State :=
  if s.left = 0 then
    let limit := bound (i + 1)
    let drawn := draw words s.position limit.1
    ⟨drawn.1, limit.2, drawn.2⟩
  else s

/-- The position that position `i` is swapped with. -/
def State.choose (words : Nat → UInt32) (i : Nat) (s : State) : Nat × State :=
  let s := s.supply words i
  if s.left = 1 then (s.chunk, { s with left := 0 })
  else (s.chunk % (i + 1), { s with chunk := s.chunk / (i + 1), left := s.left - 1 })

/-! ### Swaps -/

/-- The positions that `i` and the `n - 1` after it are swapped with. -/
def choices (words : Nat → UInt32) : (n i : Nat) → State → List Nat
  | 0, _, _ => []
  | n + 1, i, s =>
    let chosen := s.choose words i
    chosen.1 :: choices words n (i + 1) chosen.2

/-- Swaps position `i` and those after it with the given ones. -/
def swaps (xs : Array α) : (i : Nat) → List Nat → Array α
  | _, [] => xs
  | i, j :: js => swaps (xs.swapIfInBounds i j) (i + 1) js

def shuffleBy (words : Nat → UInt32) (xs : List α) : List α :=
  (swaps xs.toArray 0 (choices words xs.length 0 .start)).toList

/-! ### Sources -/

/-- Where the words of a shuffle come from. -/
inductive Source where
  | seed (n : UInt64)
  /-- Words that are drawn anew for each run. -/
  | system (words : Nat → UInt32)

/-- The system gives the words where no seed does. -/
def Source.of (seed? : Option UInt64) (system : Nat → UInt32) : Source :=
  match seed? with
  | some n => .seed n
  | none => .system system

def Source.words : Source → Nat → UInt32
  | seed n => word n
  | system words => words

def shuffle (source : Source) (xs : List α) : List α := shuffleBy source.words xs

theorem perm_swaps (xs : Array α) (i : Nat) (js : List Nat) : (swaps xs i js).Perm xs := by
  induction js generalizing xs i with
  | nil => exact .refl xs
  | cons j js ih =>
    have swapped : (xs.swapIfInBounds i j).Perm xs := by
      unfold Array.swapIfInBounds
      split
      · split
        · exact Array.swap_perm ..
        · exact .refl xs
      · exact .refl xs
    exact (ih _ _).trans swapped

theorem perm_shuffleBy (words : Nat → UInt32) (xs : List α) : (shuffleBy words xs).Perm xs := by
  have moved := perm_swaps xs.toArray 0 (choices words xs.length 0 .start)
  exact Array.perm_iff_toList_perm.mp moved

end LeafPaths.Shuffle
