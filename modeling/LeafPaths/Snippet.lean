import LeafPaths.Snippet.Diagnosis
import LeafPaths.Snippet.Layout

/-!
Parsing a snippet. The grammar is a parameter: it gives every text a concrete tree, with marks
where it found errors. A snippet that is no module by itself gets a second chance as the body of a
function.
-/

namespace LeafPaths

abbrev Grammar := String → Cst

structure Snippet where
  tree : Cst
  /-- The text that was parsed. -/
  code : String
  /-- The snippet was taken as the body of a function. -/
  wrapped : Bool

namespace Snippet

/-- The text as the body of a function. -/
def wrap (source : String) : String := "def wrapper():\n" ++ source

end Snippet

namespace Grammar

/-- The tree of a text that is a module with an acceptable layout. -/
def parseModule (grammar : Grammar) (code : String) : Except Fault Cst :=
  let tree := grammar code
  if tree.info.hasError then .error (tree.diagnose code.toUTF8)
  else
    match tree.checkLayout? with
    | some fault => .error fault
    | none => .ok tree

/-- Parses a snippet. When it is refused both times, the fault is that of the snippet as it
stands. -/
def parse (grammar : Grammar) (source : String) : Except Fault Snippet :=
  match grammar.parseModule source with
  | .ok tree => .ok ⟨tree, source, false⟩
  | .error fault =>
    match grammar.parseModule (Snippet.wrap source) with
    | .ok tree => .ok ⟨tree, Snippet.wrap source, true⟩
    | .error _ => .error fault

end Grammar
end LeafPaths
