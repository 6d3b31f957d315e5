/-!
Streams that are pulled one item at a time, and taking a bounded number of items from them.
-/

namespace LeafPaths

/-- The next item, if there is one, and the state to go on from. -/
abbrev Pull (σ α : Type) := σ → Option α × σ

namespace Pull

/-- Takes items until there are `n` or the stream ends, and pulls no further. -/
def take (pull : Pull σ α) : Nat → σ → List α × σ
  | 0, s => ([], s)
  | n + 1, s =>
    match pull s with
    | (none, s) => ([], s)
    | (some a, s) =>
      let later := take pull n s
      (a :: later.1, later.2)

/-- The items of a list. -/
def ofList : Pull (List α) α
  | [] => (none, [])
  | a :: as => (some a, as)

end Pull

/-- A bound on the number of items that are taken. -/
structure Quota where
  cap : Nat
  deriving DecidableEq, Repr

namespace Quota

def collect (q : Quota) (pull : Pull σ α) (s : σ) : List α × σ := Pull.take pull q.cap s

def isFilled (q : Quota) (taken : Nat) : Bool := q.cap ≤ taken

end Quota

end LeafPaths
