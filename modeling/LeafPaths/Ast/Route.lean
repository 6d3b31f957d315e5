import LeafPaths.Ast
import LeafPaths.Path

/-!
The way between two nodes of a tree, over the last ancestor that they share, and the limits on its
length and width.
-/

namespace LeafPaths

/-- The longest path that is accepted, and the widest. -/
structure Limits where
  length : Nat
  width : Nat
  deriving DecidableEq, Repr, Inhabited

/-- How far two lists agree from their heads on. -/
def agreement [DecidableEq α] : List α → List α → Nat
  | a :: as, b :: bs => if a = b then agreement as bs + 1 else 0
  | _, _ => 0

def gap (m n : Nat) : Nat := (m - n) + (n - m)

namespace Ast

/-- Two nodes' ways up to the root, which join where the path between the nodes turns. -/
structure Fork where
  /-- The start and its ancestors. -/
  fromStart : List Nat
  /-- The end and its ancestors. -/
  fromFinish : List Nat
  /-- How many nodes the two have in common, counted from the root. -/
  shared : Nat
  deriving DecidableEq, Repr, Inhabited

def fork (t : Ast) (start finish : Nat) : Fork :=
  let fromStart := t.lineage start
  let fromFinish := t.lineage finish
  ⟨fromStart, fromFinish, agreement fromStart.reverse fromFinish.reverse⟩

namespace Fork

/-- Edges from one node to the other. -/
def length (f : Fork) : Nat := f.fromStart.length + f.fromFinish.length - 2 * f.shared

/-- How far apart the two branches leave the turning point. A way that turns at one of its ends
has no width. -/
def width? (t : Ast) (f : Fork) : Option Nat :=
  if f.shared < f.fromStart.length ∧ f.shared < f.fromFinish.length then
    match f.fromStart[f.fromStart.length - 1 - f.shared]?,
      f.fromFinish[f.fromFinish.length - 1 - f.shared]? with
    | some a, some b => some (gap (t.rank a) (t.rank b))
    | _, _ => none
  else none

def within (t : Ast) (limits : Limits) (f : Fork) : Bool :=
  f.length ≤ limits.length && (f.width? t).all (· ≤ limits.width)

/-- The kinds on the way up, at the turning point, and on the way down. -/
def path? (t : Ast) (f : Fork) : Option Path :=
  f.fromStart[f.fromStart.length - f.shared]?.map fun top =>
    { up := (f.fromStart.take (f.fromStart.length - f.shared)).map t.kind
      top := t.kind top
      down := (f.fromFinish.take (f.fromFinish.length - f.shared)).reverse.map t.kind }

end Fork

/-- The path from `start` to `finish`, if these are two nodes and it is within the limits. -/
def path? (t : Ast) (limits : Limits) (start finish : Nat) : Option Path :=
  if start = finish then none
  else if (t.fork start finish).within t limits then (t.fork start finish).path? t
  else none

end Ast
end LeafPaths
