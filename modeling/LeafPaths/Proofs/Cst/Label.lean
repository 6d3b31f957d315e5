import LeafPaths.Proofs.Ast.OfPlace
import LeafPaths.Proofs.Cst.Nodes

/-!
Which words are labels, told by the nodes around them: the parent, its children and the ancestors
above it. A word that is no label carries its text.
-/

namespace LeafPaths

namespace Place

def Step.around (step : Step) (here : Cst) : Cst :=
  .node step.parent (step.left.reverse ++ here :: step.right)

def parent? (p : Place) : Option Place :=
  match p.above with
  | [] => none
  | step :: above => some ⟨step.around p.here, above⟩

def ancestorsFrom (here : Cst) : List Step → List Place
  | [] => []
  | step :: above => ⟨step.around here, above⟩ :: ancestorsFrom (step.around here) above

def ancestors (p : Place) : List Place := ancestorsFrom p.here p.above

def children (p : Place) : List Place := siblings p.here.info p.above [] p.here.children

def childByField? (p : Place) (name : String) : Option Place :=
  p.children.find? fun c => c.here.info.field = some name

/-- The word only names something. -/
inductive Label (p : Place) : Prop where
  | definition {q : Place} (above : p.parent? = some q)
      (kind : q.here.kind ∈ ["function_definition", "class_definition", "keyword_argument"])
      (named : q.childByField? "name" = some p)
  | member {q : Place} (above : p.parent? = some q) (kind : q.here.kind = "attribute")
      (named : q.childByField? "attribute" = some p)
  | declaration {q : Place} (above : p.parent? = some q)
      (kind : q.here.kind ∈ ["global_statement", "nonlocal_statement"])
  | imported {q a : Place} (above : p.parent? = some q)
      (kind : q.here.kind ∈ ["dotted_name", "aliased_import"])
      (nearest : p.ancestors.find? (fun a => a.here.kind ∉ importParts) = some a)
      (statement : a.here.kind ∈ importStatements)

variable {p q : Place} {name : String} {code : ByteArray} {text : String}

theorem ancestors_of_parent? (above : p.parent? = some q) : p.ancestors = q :: q.ancestors := by
  obtain ⟨here, steps⟩ := p
  cases steps with
  | nil => cases above
  | cons step steps =>
    obtain rfl := Option.some.inj above
    rfl

/-! ### Fields -/

theorem exists_siblings_append (parent : Cst.Info) (above : List Step) (left before : List Cst)
    (here : Cst) (right : List Cst) :
    ∃ earlier later, siblings parent above left (before ++ here :: right) =
      earlier ++ ⟨here, ⟨parent, before.reverse ++ left, right⟩ :: above⟩ :: later ∧
        earlier.map (·.here) = before := by
  induction before generalizing left with
  | nil => exact ⟨[], _, rfl, rfl⟩
  | cons first before ih =>
    obtain ⟨earlier, later, split, same⟩ := ih (first :: left)
    refine ⟨⟨first, ⟨parent, left, before ++ here :: right⟩ :: above⟩ :: earlier, later, ?_, ?_⟩
    · rw [List.cons_append, siblings, split, List.reverse_cons, List.append_assoc]
      rfl
    · rw [List.map_cons, same]

/-- A node stands among its parent's children once, after the siblings to its left. -/
theorem exists_children_split (above : p.parent? = some q) :
    ∃ earlier later, q.children = earlier ++ p :: later ∧ p ∉ earlier ∧
      ∀ name, p.isField name = true ↔
        p.here.info.field = some name ∧ ∀ c ∈ earlier, c.here.info.field ≠ some name := by
  obtain ⟨here, steps⟩ := p
  cases steps with
  | nil => cases above
  | cons step steps =>
    obtain rfl := Option.some.inj above
    obtain ⟨earlier, later, split, same⟩ :=
      exists_siblings_append step.parent steps [] step.left.reverse here step.right
    rw [List.reverse_reverse, List.append_nil] at split
    refine ⟨earlier, later, split, ?_, ?_⟩
    · have apart := above_ne_of_siblings step.parent steps []
        (step.left.reverse ++ here :: step.right)
      rw [split, List.pairwise_append] at apart
      intro member
      exact apart.2.2 _ member _ List.mem_cons_self rfl
    · intro name
      have lefts : (∀ c ∈ step.left, c.info.field ≠ some name) ↔
          ∀ c ∈ earlier, c.here.info.field ≠ some name := by
        rw [← List.reverse_reverse step.left, ← same]
        simp
      simp [isField, ← lefts]

theorem isField_iff (above : p.parent? = some q) :
    p.isField name = true ↔ q.childByField? name = some p := by
  obtain ⟨earlier, later, split, unlisted, field⟩ := exists_children_split above
  rw [field, childByField?, split, List.find?_append, Option.or_eq_some_iff]
  constructor
  · rintro ⟨here, free⟩
    have none : earlier.find? (fun c => c.here.info.field = some name) = none := by
      simpa [List.find?_eq_none] using free
    exact Or.inr ⟨none, List.find?_cons_of_pos (by simpa using here)⟩
  · rintro (first | ⟨none, first⟩)
    · -- A hit before the node is another node, even if it is an equal tree.
      exact absurd (List.mem_of_find?_eq_some first) unlisted
    · exact ⟨by simpa using List.find?_some first, by simpa [List.find?_eq_none] using none⟩

/-! ### Imports -/

theorem leadsToImport_iff (p : Place) : leadsToImport p.above = true ↔
    ∃ a, p.ancestors.find? (fun a => a.here.kind ∉ importParts) = some a ∧
      a.here.kind ∈ importStatements := by
  obtain ⟨here, above⟩ := p
  induction above generalizing here with
  | nil => simp [leadsToImport, ancestors, ancestorsFrom]
  | cons step above ih =>
    have kind : (step.around here).kind = step.parent.kind := rfl
    have further := ih (step.around here)
    rw [ancestors] at further ⊢
    rw [leadsToImport, ancestorsFrom, List.find?_cons]
    by_cases part : step.parent.kind ∈ importParts
    · -- The climb looks for a statement first, the ancestors are searched past the parts.
      have apart : step.parent.kind ∉ importStatements := by
        intro statement
        exact absurd part ((by decide : ∀ k ∈ importStatements, k ∉ importParts) _ statement)
      simpa [kind, part, apart] using further
    · by_cases statement : step.parent.kind ∈ importStatements <;> simp [kind, part, statement]

/-! ### Labels -/

theorem isLabel_of_root (root : p.parent? = none) : p.isLabel = false := by
  obtain ⟨here, above⟩ := p
  cases above with
  | nil => rfl
  | cons step above => cases root

theorem isLabel_of_parent? (above : p.parent? = some q) :
    p.isLabel =
      if q.here.kind ∈ ["function_definition", "class_definition", "keyword_argument"] then
        p.isField "name"
      else if q.here.kind = "attribute" then p.isField "attribute"
      else if q.here.kind ∈ ["global_statement", "nonlocal_statement"] then true
      else if q.here.kind ∈ ["dotted_name", "aliased_import"] then leadsToImport q.above
      else false := by
  obtain ⟨here, steps⟩ := p
  cases steps with
  | nil => cases above
  | cons step steps =>
    obtain rfl := Option.some.inj above
    rfl

theorem find?_ancestors_of_part (above : p.parent? = some q)
    (kind : q.here.kind ∈ ["dotted_name", "aliased_import"]) :
    p.ancestors.find? (fun a => a.here.kind ∉ importParts) =
      q.ancestors.find? (fun a => a.here.kind ∉ importParts) := by
  have part : q.here.kind ∈ importParts :=
    (by decide : ∀ k ∈ ["dotted_name", "aliased_import"], k ∈ importParts) _ kind
  rw [ancestors_of_parent? above, List.find?_cons_of_neg (by simpa using part)]

theorem isLabel_iff : p.isLabel = true ↔ p.Label := by
  constructor
  · intro label
    cases above : p.parent? with
    | none =>
      rw [isLabel_of_root above] at label
      cases label
    | some q =>
      rw [isLabel_of_parent? above] at label
      split_ifs at label with definition member declaration name
      · exact .definition above definition ((isField_iff above).mp label)
      · exact .member above member ((isField_iff above).mp label)
      · exact .declaration above declaration
      · obtain ⟨a, nearest, statement⟩ := (leadsToImport_iff q).mp label
        rw [← find?_ancestors_of_part above name] at nearest
        exact .imported above name nearest statement
  · intro label
    cases label with
    | definition above kind named =>
      rw [isLabel_of_parent? above, if_pos kind]
      exact (isField_iff above).mpr named
    | member above kind named =>
      rw [isLabel_of_parent? above, kind, if_neg (by decide), if_pos rfl]
      exact (isField_iff above).mpr named
    | @declaration q above kind =>
      rw [isLabel_of_parent? above]
      rcases List.mem_pair.mp kind with kind | kind <;> rw [kind] <;> rfl
    | @imported q a above kind nearest statement =>
      rw [find?_ancestors_of_part above kind] at nearest
      rw [isLabel_of_parent? above, ← (leadsToImport_iff q).mpr ⟨a, nearest, statement⟩]
      rcases List.mem_pair.mp kind with kind | kind <;> rw [kind] <;> rfl

/-- A word that is no label carries its text. -/
theorem value?_of_word (word : p.here.kind = "identifier")
    (spelled : p.here.text? code = some text) (nonempty : text ≠ "") :
    (p.value? code = none ↔ p.Label) ∧ (¬ p.Label → p.value? code = some text) := by
  have rule : ValueRule.of? p.here.kind = some .word := by
    rw [word]
    rfl
  have value : p.value? code = if p.isLabel then none else some text := by
    rw [value?, rule, Option.bind_some, applyRule?, spelled]
    split
    · rfl
    · simpa using nonempty
  rw [value, ← isLabel_iff]
  cases p.isLabel <;> simp

def ruleAt (kind : String) (firstByte endByte : Nat) (field : Option String) : Cst.Info :=
  { (default : Cst.Info) with kind, named := true, firstByte, endByte, field }

def wordAt (firstByte endByte : Nat) (field : Option String) : Cst :=
  .node (ruleAt "identifier" firstByte endByte field) []

def tokenAt (kind : String) (firstByte endByte : Nat) : Cst :=
  .node { (default : Cst.Info) with kind, firstByte, endByte } []

def importedWord : Place where
  here := wordAt 10 14 none
  above :=
    [⟨ruleAt "dotted_name" 7 14 (some "name"), [tokenAt "." 9 10, wordAt 7 9 none], []⟩,
      ⟨ruleAt "aliased_import" 7 19 (some "name"), [],
        [tokenAt "as" 15 17, wordAt 18 19 (some "alias")]⟩,
      ⟨ruleAt "import_statement" 0 19 none, [tokenAt "import" 0 6], []⟩,
      ⟨ruleAt "module" 0 19 none, [], []⟩]

/-- The word after `case` in the line `match x:` and the line ` case a.b: 1` after it. -/
def matchedWord : Place where
  here := wordAt 15 16 none
  above :=
    [⟨ruleAt "dotted_name" 15 18 none, [], [tokenAt "." 16 17, wordAt 17 18 none]⟩,
      ⟨ruleAt "case_pattern" 15 18 none, [], []⟩,
      ⟨ruleAt "case_clause" 10 21 (some "alternative"), [tokenAt "case" 10 14],
        [tokenAt ":" 18 19, .node (ruleAt "block" 20 21 (some "consequence"))
          [.node (ruleAt "expression_statement" 20 21 none)
            [.node (ruleAt "integer" 20 21 none) []]]]⟩,
      ⟨ruleAt "block" 8 21 (some "body"), [], []⟩,
      ⟨ruleAt "match_statement" 0 21 none,
        [tokenAt ":" 7 8, wordAt 6 7 (some "subject"), tokenAt "match" 0 5], []⟩,
      ⟨ruleAt "module" 0 21 none, [], []⟩]

theorem value?_of_importedWord :
    importedWord.value? "import os.path as p".toUTF8 = none ∧
      matchedWord.value? "match x:\n case a.b: 1".toUTF8 = some "a" := by
  have path : importedWord.here.text? "import os.path as p".toUTF8 = some "path" :=
    Cst.Spans.text?_eq ⟨"import os.", " as p", by decide, by decide, by decide⟩
  have a : matchedWord.here.text? "match x:\n case a.b: 1".toUTF8 = some "a" :=
    Cst.Spans.text?_eq ⟨"match x:\n case ", ".b: 1", by decide, by decide, by decide⟩
  have imported : importedWord.Label := isLabel_iff.mp (by decide)
  have free : ¬ matchedWord.Label := by
    rw [← isLabel_iff]
    decide
  exact ⟨(value?_of_word rfl path (by decide)).1.mpr imported,
    (value?_of_word rfl a (by decide)).2 free⟩

end Place
end LeafPaths
