import LeafPaths.Ast.Leaves
import LeafPaths.Ast.OfPlace
import LeafPaths.Context.Pairs
import LeafPaths.Settings
import LeafPaths.Snippet

/-!
The contexts of a snippet: those between the leaves of its abstract tree, within the limits and up
to the most that are wanted.
-/

namespace LeafPaths

namespace Settings

def limits (s : Settings) : Limits := ⟨s.maxLength.toNat, s.maxWidth.toNat⟩

def quota (s : Settings) : Quota := ⟨s.maxContexts.toNat⟩

end Settings

/-- The abstract tree of a parsed snippet. -/
def Snippet.ast (s : Snippet) : Ast := Ast.ofCst s.code.toUTF8 s.tree

/-- The contexts of a tree, in the order of the pairs of its leaves. -/
def Ast.extract (t : Ast) (settings : Settings) : List Context :=
  (settings.quota.collect (Pairs.next t settings.limits) (.of t.leaves)).1

/-- The contexts of a snippet. -/
def Grammar.extract (grammar : Grammar) (settings : Settings) (source : String) :
    Except Fault (List Context) :=
  (grammar.parse source).map fun snippet => snippet.ast.extract settings

end LeafPaths
