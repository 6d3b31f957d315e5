/-!
Path contexts: the value at one end of a path, the path's text, and the value at the other end.
-/

namespace LeafPaths

structure Context where
  start : String
  path : String
  finish : String
  deriving DecidableEq, Repr, Inhabited

namespace Context

/-- The form of a context on one line. -/
def line (c : Context) : String := c.start ++ "," ++ c.path ++ "," ++ c.finish

/-- Counts each `^`, and each `_` that stands right before `(`: a kind may hold `_` itself. -/
def countSteps : List Char → Nat
  | [] => 0
  | c :: cs => (if c = '^' ∨ (c = '_' ∧ cs.head? = some '(') then 1 else 0) + countSteps cs

/-- Steps up and down on the path. -/
def steps (c : Context) : Nat := countSteps c.path.toList

end Context
end LeafPaths
