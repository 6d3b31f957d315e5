import LeafPaths.Cst.Place

/-!
Which nodes carry a value. Words and literals do, in the text or the content that they stand for;
a word that only labels something (the name of a definition, an attribute, a keyword or an imported
module) does not, and neither does a literal that holds expressions.
-/

namespace LeafPaths

/-- How a node that may carry a value comes by it. -/
inductive ValueRule where
  /-- Its text, unless the word is a label. -/
  | word
  /-- Its text. -/
  | text
  /-- A fixed name, whatever its text. -/
  | fixed (value : String)
  /-- What stands between its quotes. -/
  | quoted
  /-- What stands between the quotes of each of its parts. -/
  | joined
  deriving DecidableEq, Repr

def valueRules : List (String × ValueRule) :=
  [("identifier", .word), ("integer", .text), ("float", .text), ("string", .quoted),
    ("string_content", .text), ("concatenated_string", .joined), ("true", .text),
    ("false", .text), ("none", .text), ("ellipsis", .fixed "Ellipsis")]

/-- A node of any kind that has no rule is structure only. -/
def ValueRule.of? (kind : String) : Option ValueRule := valueRules.lookup kind

/-! ### Literals -/

namespace Cst

/-- The content of a quoted literal; `none` when expressions stand in it. -/
def quoted? (code : ByteArray) (t : Cst) : Option String :=
  if t.namedChildren.any (·.kind == "interpolation") then none
  else
    ((t.namedChildren.filter (·.kind == "string_content")).mapM (text? code)).map String.join

/-- The content of adjacent quoted literals, which are one. -/
def joined? (code : ByteArray) (t : Cst) : Option String :=
  ((t.namedChildren.filter (·.kind == "string")).mapM (quoted? code)).map String.join

end Cst

/-! ### Labels -/

def importStatements : List String :=
  ["import_statement", "import_from_statement", "future_import_statement"]

/-- The kinds of which the name of an imported module is built. -/
def importParts : List String := ["dotted_name", "aliased_import", "relative_import"]

namespace Place

/-- Climbing over the parts of a name leads to an import statement. -/
def leadsToImport : List Step → Bool
  | [] => false
  | step :: above =>
    if step.parent.kind ∈ importStatements then true
    else if step.parent.kind ∈ importParts then leadsToImport above
    else false

def isLabel (p : Place) : Bool :=
  match p.above with
  | [] => false
  | step :: above =>
    if step.parent.kind ∈ ["function_definition", "class_definition", "keyword_argument"] then
      p.isField "name"
    else if step.parent.kind = "attribute" then p.isField "attribute"
    else if step.parent.kind ∈ ["global_statement", "nonlocal_statement"] then true
    else if step.parent.kind ∈ ["dotted_name", "aliased_import"] then leadsToImport above
    else false

def applyRule? (code : ByteArray) (p : Place) : ValueRule → Option String
  | .word => if p.isLabel then none else p.here.text? code
  | .text => p.here.text? code
  | .fixed value => some value
  | .quoted => p.here.quoted? code
  | .joined => p.here.joined? code

/-- The value that a node carries, which is never empty. -/
def value? (code : ByteArray) (p : Place) : Option String :=
  ((ValueRule.of? p.here.kind).bind (p.applyRule? code)).filter (· ≠ "")

theorem value?_ne_empty {code : ByteArray} {p : Place} {v : String} (h : p.value? code = some v) :
    v ≠ "" := by
  simpa using (Option.filter_eq_some_iff.mp h).2

end Place
end LeafPaths
