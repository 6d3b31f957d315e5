import Mathlib.Algebra.GroupWithZero.Nat
import LeafPaths.Stream

/-!
A stream is known by what it still has to hand out: each pull gives the first of these items and
leaves the others. Taking items then is taking a prefix, however the pulls are split.
-/

namespace LeafPaths.Pull

variable {pull : Pull σ α} {remaining : σ → List α}

/-- From each state, the stream hands out the items that remain, one with each pull. -/
def Enumerates (pull : Pull σ α) (remaining : σ → List α) : Prop :=
  ∀ s, (pull s).1 = (remaining s).head? ∧ remaining (pull s).2 = (remaining s).tail

theorem Enumerates.take (enumerates : pull.Enumerates remaining) (n : Nat) (s : σ) :
    (take pull n s).1 = (remaining s).take n ∧
      remaining (Pull.take pull n s).2 = (remaining s).drop n := by
  induction n generalizing s with
  | zero => exact ⟨rfl, rfl⟩
  | succ n ih =>
    obtain ⟨first, others⟩ := enumerates s
    rw [Pull.take]
    split
    next next pulled =>
      rw [pulled] at first others
      have none_left := List.head?_eq_none_iff.mp first.symm
      rw [none_left] at others ⊢
      exact ⟨rfl, others⟩
    next a next pulled =>
      rw [pulled] at first others
      obtain ⟨as, items⟩ := List.head?_eq_some_iff.mp first.symm
      rw [items] at others ⊢
      obtain ⟨taken, left⟩ := ih next
      rw [show remaining next = as from others] at taken left
      exact ⟨congrArg (a :: ·) taken, left⟩

/-! ### Pulling at will -/

def after (pull : Pull σ α) : Nat → σ → σ
  | 0, s => s
  | n + 1, s => after pull n (pull s).2

def inParts (pull : Pull σ α) : List Nat → σ → List (List α) × σ
  | [], s => ([], s)
  | n :: counts, s =>
    let first := take pull n s
    let later := inParts pull counts first.2
    (first.1 :: later.1, later.2)

theorem Enumerates.after (enumerates : pull.Enumerates remaining) (n : Nat) (s : σ) :
    remaining (pull.after n s) = (remaining s).drop n := by
  induction n generalizing s with
  | zero => rfl
  | succ n ih => rw [Pull.after, ih, (enumerates s).2, List.drop_tail]

theorem Enumerates.pull_after (enumerates : pull.Enumerates remaining) (n : Nat) (s : σ) :
    (pull (pull.after n s)).1 = (remaining s)[n]? := by
  rw [(enumerates _).1, enumerates.after, List.head?_drop]

theorem Enumerates.inParts (enumerates : pull.Enumerates remaining) (counts : List Nat) (s : σ) :
    (pull.inParts counts s).1.flatten = (remaining s).take counts.sum ∧
      remaining (pull.inParts counts s).2 = (remaining s).drop counts.sum := by
  induction counts generalizing s with
  | nil => exact ⟨rfl, rfl⟩
  | cons n counts ih =>
    obtain ⟨taken, left⟩ := enumerates.take n s
    obtain ⟨parts, rest⟩ := ih (Pull.take pull n s).2
    rw [left] at parts rest
    rw [Pull.inParts, List.sum_cons]
    constructor
    · rw [List.flatten_cons, taken, parts, List.take_add]
    · rw [rest, List.drop_drop]

theorem Enumerates.ended (enumerates : pull.Enumerates remaining) {s : σ} (ended : (pull s).1 = none)
    (n : Nat) : (pull (pull.after n s)).1 = none := by
  have nothing : remaining s = [] := by
    rw [(enumerates s).1] at ended
    exact List.head?_eq_none_iff.mp ended
  rw [enumerates.pull_after, nothing, List.getElem?_nil]

def counted (pull : Pull σ α) : Pull (σ × Nat) α := fun s =>
  ((pull s.1).1, (pull s.1).2, s.2 + (pull s.1).1.toList.length)

theorem take_counted (n : Nat) (s : σ) (k : Nat) :
    take pull.counted n (s, k) =
      ((take pull n s).1, (take pull n s).2, k + (take pull n s).1.length) := by
  induction n generalizing s k with
  | zero => rfl
  | succ n ih =>
    rw [take, take, counted]
    cases pulled : pull s with
    | mk item next =>
      cases item with
      | none => rfl
      | some a =>
        simp only [Option.toList_some, List.length_singleton]
        rw [ih]
        simp only [List.length_cons, Prod.mk.injEq, true_and]
        omega

end LeafPaths.Pull
