import LeafPaths.Extraction
import LeafPaths.Proofs.Ast.OfPlace
import LeafPaths.Proofs.Ast.Preorder
import LeafPaths.Proofs.Snippet.Attempts

/-!
Snippets that parse as the body of a function only. The tree of the wrapped text is held to the
layout of a module, which says nothing of the function that was put around the snippet: the snippet
is all in it unless one of its statements begins a line in column 0.
-/

namespace LeafPaths

namespace Cst

/-- A module that begins with a function, every `;` after it being after another statement too. -/
structure Headed (t : Cst) : Prop where
  isModule : t.kind = "module"
  begins : ∃ header later, t.children = header :: later ∧ header.kind = "function_definition" ∧
    header.kept ∧ ∀ before mark after, later = before ++ mark :: after → mark.kind = ";" →
      ∃ c ∈ before, c.kept

/-- The first statement after the function opens a line, so its column is that of the module. -/
theorem Headed.statements_eq {t : Cst} (headed : t.Headed) (accepted : t.checkLayout? = none)
    (indented : ∀ c ∈ t.statements.tail, c.info.column ≠ 0) :
    ∃ f, t.statements = [f] ∧ f.kind = "function_definition" := by
  obtain ⟨header, later, children, function, kept, separated⟩ := headed.begins
  have sound := layoutFault?_of_reaches accepted .here
  rw [Cst.statements_eq, children, List.filter_cons, if_pos kept] at indented ⊢
  refine ⟨header, ?_, function⟩
  cases found : later.find? (·.kept) with
  | none => rw [List.filter_eq_nil_iff.mpr (List.find?_eq_none.mp found)]
  | some c =>
    obtain ⟨keptC, before, after, rfl, unkept⟩ := List.find?_eq_some_iff_append.mp found
    have unmarked : ((header :: before).getLast?.or none).any (·.kind == ";") = false := by
      rw [List.getLast?_cons, Option.or_none]
      cases last : before.getLast? with
      | none => simp [function]
      | some mark =>
        obtain ⟨rest, rfl⟩ := List.getLast?_eq_some_iff.mp last
        -- A statement before the mark would be one before `c`, which is the first.
        have other : mark.kind ≠ ";" := by
          intro marked
          obtain ⟨d, member, keptD⟩ := separated rest mark (c :: after) (by simp) marked
          have unkeptD := unkept d (List.mem_append_left _ member)
          rw [keptD] at unkeptD
          cases unkeptD
        simp [other]
    have opens : c ∈ lineOpeners none t.children := by
      rw [children, ← List.cons_append]
      exact mem_lineOpeners keptC unmarked
    have outside : c ∈ (before ++ c :: after).filter (·.kept) :=
      List.mem_filter.mpr ⟨List.mem_append_right _ List.mem_cons_self, keptC⟩
    exact (indented c outside (column_of_module headed.isModule sound opens)).elim

end Cst

namespace Grammar

variable {grammar : Grammar} {source : String} {s : Snippet}

theorem parseModule_eq_ok {code : String} {t : Cst} (parsed : grammar.parseModule code = .ok t) :
    t = grammar code ∧ t.info.hasError = false ∧ t.checkLayout? = none := by
  rw [parseModule_eq] at parsed
  split at parsed
  · cases parsed
  · rename_i sound
    obtain rfl := Except.ok.inj parsed
    exact ⟨rfl, Cst.refusal?_eq_none_iff.mp sound⟩

theorem parse_wrapped (parsed : grammar.parse source = .ok s) (wrapped : s.wrapped = true) :
    grammar.parseModule (Snippet.wrap source) = .ok s.tree ∧ s.code = Snippet.wrap source := by
  rcases parse_eq_ok_iff.mp parsed with ⟨-, rfl⟩ | ⟨-, sound, rfl⟩
  · cases wrapped
  · exact ⟨parseModule_of_sound sound, rfl⟩

end Grammar

namespace Snippet

variable {s : Snippet}

/-- The whole snippet is the body of the function. -/
def Enclosed (s : Snippet) : Prop :=
  ∃ f, s.tree.statements = [f] ∧ f.kind = "function_definition"

theorem value?_of_module {code : ByteArray} {p : Place} (isModule : p.here.kind = "module") :
    p.value? code = none := by
  rw [Place.value?, isModule]
  rfl

theorem root_not_mem_leaves (isModule : s.tree.kind = "module") : Ast.root ∉ s.ast.leaves := by
  intro member
  have arranged := (Ast.grown_ofPlace s.code.toUTF8 (.root s.tree)).arranged
  rw [ast, Ast.ofCst, arranged.leaves_eq_filter] at member
  have valued := (List.mem_filter.mp member).2
  rw [Ast.value?, Ast.node?_root_ofPlace, value?_of_module isModule] at valued
  cases valued

theorem exists_single_child (isModule : s.tree.kind = "module") (enclosed : s.Enclosed) :
    ∃ c, s.ast.children Ast.root = [c] := by
  obtain ⟨f, single, -⟩ := enclosed
  have kept : ((Place.root s.tree).keptChildren.map (·.here)).length = 1 := by
    rw [Place.map_here_keptChildren]
    exact congrArg List.length single
  rw [List.length_map] at kept
  obtain ⟨p, only⟩ := List.length_eq_one_iff.mp kept
  refine ⟨1, ?_⟩
  rw [Ast.children, ast, Ast.ofCst, Ast.node?_root_ofPlace, value?_of_module isModule, only]
  rfl

end Snippet

/-- The snippet is all in the function, and no path turns at the module, just when no statement
after the function begins in column 0. -/
theorem Grammar.enclosed_iff_indented {grammar : Grammar} {source : String} {s : Snippet}
    (headed : (grammar (Snippet.wrap source)).info.hasError = false →
      (grammar (Snippet.wrap source)).Headed)
    (parsed : grammar.parse source = .ok s) (wrapped : s.wrapped = true) :
    (s.Enclosed ∧ ∀ x ∈ s.ast.leaves, ∀ y ∈ s.ast.leaves, ∀ top, s.ast.Turn top x y →
        top ≠ Ast.root) ↔
      ∀ c ∈ s.tree.statements.tail, c.info.column ≠ 0 := by
  obtain ⟨parsed, -⟩ := parse_wrapped parsed wrapped
  obtain ⟨same, clean, accepted⟩ := parseModule_eq_ok parsed
  rw [← same] at headed
  constructor
  · rintro ⟨⟨f, single, -⟩, -⟩ c member
    rw [single] at member
    cases member
  · intro indented
    have enclosed : s.Enclosed := (headed clean).statements_eq accepted indented
    refine ⟨enclosed, ?_⟩
    intro x memberX y memberY top turn
    obtain ⟨c, single⟩ := Snippet.exists_single_child (headed clean).isModule enclosed
    have notRoot := Snippet.root_not_mem_leaves (headed clean).isModule
    have arranged := (Ast.grown_ofPlace s.code.toUTF8 (.root s.tree)).arranged
    exact arranged.top_ne_root single (fun h => notRoot (h ▸ memberX)) (fun h => notRoot (h ▸ memberY))
      turn

/-! ### A line that leaves the function -/

def assignmentAt (first row column : Nat) : Cst :=
  .node ⟨"expression_statement", true, false, false, false, false, first, first + 5, row, column, none⟩
    [.node ⟨"assignment", true, false, false, false, false, first, first + 5, row, column, none⟩
      [.node ⟨"identifier", true, false, false, false, false, first, first + 1, row, column,
          some "left"⟩ [],
        .node ⟨"=", false, false, false, false, false, first + 2, first + 3, row, column + 2, none⟩ [],
        .node ⟨"integer", true, false, false, false, false, first + 4, first + 5, row, column + 4,
          some "right"⟩ []]]

def assignmentWrapper : Cst :=
  .node ⟨"function_definition", true, false, false, false, false, 0, 24, 0, 0, none⟩
    [.node ⟨"def", false, false, false, false, false, 0, 3, 0, 0, none⟩ [],
      .node ⟨"identifier", true, false, false, false, false, 4, 11, 0, 4, some "name"⟩ [],
      .node ⟨"parameters", true, false, false, false, false, 11, 13, 0, 11, some "parameters"⟩
        [.node ⟨"(", false, false, false, false, false, 11, 12, 0, 11, none⟩ [],
          .node ⟨")", false, false, false, false, false, 12, 13, 0, 12, none⟩ []],
      .node ⟨":", false, false, false, false, false, 13, 14, 0, 13, none⟩ [],
      .node ⟨"block", true, false, false, false, false, 19, 24, 1, 4, some "body"⟩
        [assignmentAt 19 1 4]]

def assignmentGrammar : Grammar := fun text =>
  if text = "    x = 1\n" then
    .node ⟨"module", true, false, false, false, false, 4, 10, 0, 4, none⟩ [assignmentAt 4 0 4]
  else if text = "def wrapper():\n    x = 1\n" then
    .node ⟨"module", true, false, false, false, false, 0, 25, 0, 0, none⟩ [assignmentWrapper]
  else if text = "    x = 1\ny = 2\n" then
    .node ⟨"module", true, false, false, false, false, 4, 16, 0, 4, none⟩
      [assignmentAt 4 0 4, assignmentAt 10 1 0]
  else
    .node ⟨"module", true, false, false, false, false, 0, 31, 0, 0, none⟩
      [assignmentWrapper, assignmentAt 25 2 0]

theorem enclosed_of_indented_line :
    ∃ s, assignmentGrammar.parse "    x = 1\n" = .ok s ∧ s.wrapped = true ∧ s.Enclosed := by
  have headed : (assignmentGrammar (Snippet.wrap "    x = 1\n")).Headed := by
    refine ⟨rfl, assignmentWrapper, [], rfl, rfl, rfl, ?_⟩
    intro before mark after nothing
    cases before <;> cases nothing
  have parsed : assignmentGrammar.parse "    x = 1\n" =
      .ok ⟨assignmentGrammar (Snippet.wrap "    x = 1\n"), Snippet.wrap "    x = 1\n", true⟩ := by
    apply Grammar.parse_of_sound_wrapped
    · rw [Cst.sound_iff]
      decide +kernel
    · rw [Cst.sound_iff]
      decide +kernel
  refine ⟨_, parsed, rfl, ?_⟩
  refine ((Grammar.enclosed_iff_indented (fun _ => headed) parsed rfl).mpr ?_).1
  intro c member
  cases member

/-- The line that is not indented is outside the function, and a path turns at the module. -/
theorem tail_outside_function :
    ∃ s, assignmentGrammar.parse "    x = 1\ny = 2\n" = .ok s ∧ s.wrapped = true ∧
      ¬ s.Enclosed ∧ 7 ∈ s.ast.leaves ∧ 11 ∈ s.ast.leaves ∧
      s.ast.context? ({} : Settings).limits 7 11 = some ⟨"x",
        "(identifier)^(assignment)^(expression_statement)^(block)^(function_definition)^" ++
          "(module)_(expression_statement)_(assignment)_(identifier)", "y"⟩ := by
  have parsed : assignmentGrammar.parse "    x = 1\ny = 2\n" =
      .ok ⟨assignmentGrammar (Snippet.wrap "    x = 1\ny = 2\n"),
        Snippet.wrap "    x = 1\ny = 2\n", true⟩ := by
    apply Grammar.parse_of_sound_wrapped
    · rw [Cst.sound_iff]
      decide +kernel
    · rw [Cst.sound_iff]
      decide +kernel
  refine ⟨_, parsed, rfl, ?_, by decide +kernel, by decide +kernel, by decide +kernel⟩
  rintro ⟨f, single, -⟩
  have two : 2 = 1 := congrArg List.length single
  cases two

end LeafPaths
