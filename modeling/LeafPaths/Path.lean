/-!
Paths between two nodes of a tree, as the kinds of the nodes on the way, and their text.
-/

namespace LeafPaths

/-- A way up to a turning point and down again, both ends included. -/
structure Path where
  /-- The kinds on the way up, from the start to just below the turning point. -/
  up : List String
  top : String
  /-- The kinds on the way down, from just below the turning point to the end. -/
  down : List String
  deriving DecidableEq, Repr, Inhabited

namespace Path

def segment (kind : String) : String := "(" ++ kind ++ ")"

/-- Each step up ends in `^`, each step down begins with `_`. -/
def text (p : Path) : String :=
  String.join (p.up.map fun kind => segment kind ++ "^") ++ segment p.top ++
    String.join (p.down.map fun kind => "_" ++ segment kind)

/-- Edges on the way. -/
def length (p : Path) : Nat := p.up.length + p.down.length

/-- The same way, walked from its end. -/
def reverse (p : Path) : Path := ⟨p.down.reverse, p.top, p.up.reverse⟩

end Path
end LeafPaths
