import LeafPaths.Cst.Search
import LeafPaths.Snippet.Fault
import LeafPaths.Text.Blank

/-!
The complaint about a tree with an error in it: what stands at the first node that the parser put
in or could not place.
-/

namespace LeafPaths

/-- The longest text that a complaint quotes, in characters. -/
def maxQuoted : Nat := 32

/-- The text as a complaint quotes it: a long one is cut and ends in an ellipsis. -/
def shorten (text : String) : String :=
  if maxQuoted < text.length then String.ofList (text.toList.take maxQuoted) ++ "…" else text

namespace Cst

/-- The complaint about a node that is in error itself. -/
def complaint? (code : ByteArray) (t : Cst) : Option Complaint :=
  if t.info.missing then some (.missing t.kind)
  else if t.info.erroneous then
    let text := Text.trim ((t.text? code).getD "")
    if text.isEmpty then some .endOfInput else some (.unexpected (shorten text))
  else none

/-- The parser saw an error at or below the node. -/
def troubled (t : Cst) : Bool := t.info.hasError || t.info.missing

/-- The fault of the node, if it is in error itself. -/
def fault? (code : ByteArray) (t : Cst) : Option Fault := (t.complaint? code).map (.on t)

/-- The first node in error, in pre-order, below none but troubled nodes. -/
def firstError? (code : ByteArray) (t : Cst) : Option Fault := search (fault? code) troubled [t]

/-- The fault of a tree that has an error somewhere, if not a visible one. -/
def diagnose (code : ByteArray) (t : Cst) : Fault :=
  (firstError? code t).getD (.on t .invalid)

end Cst
end LeafPaths
