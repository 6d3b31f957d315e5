import LeafPaths.Proofs.Command.Formats
import LeafPaths.Proofs.Extraction.Tokens
import LeafPaths.Proofs.Snippet.Attempts
import Mathlib.Algebra.GroupWithZero.Nat

/-!
The lines of an extraction. What is printed always ends its last line, but tokens are printed as
they are, so a literal that goes over several lines takes its context over as many. The contexts
are read back from the lines exactly when no token has a line break in it.
-/

namespace LeafPaths

namespace Text

def pieces (text : String) : List String := (text.toList.splitOn '\n').map String.ofList

/-- The lines of a text that ends each of them. -/
def lines? (text : String) : Option (List String) :=
  if (pieces text).getLast? = some "" then some (pieces text).dropLast else none

variable {line : String} {lines : List String}

theorem pieces_of_not_mem (unbroken : '\n' ∉ line.toList) : pieces line = [line] := by
  rw [pieces, List.splitOn_eq_singleton unbroken, List.map_singleton, String.ofList_toList]

theorem length_splitOn (x : Char) (cs : List Char) : (cs.splitOn x).length = cs.count x + 1 := by
  induction cs with
  | nil => rw [List.splitOn_nil, List.count_nil, List.length_singleton]
  | cons c cs ih =>
    rw [List.splitOn_cons_eq_if_modifyHead, List.count_cons]
    split
    · rw [List.length_cons, ih]
    · rw [List.length_modifyHead, ih]

theorem length_pieces (text : String) : (pieces text).length = text.toList.count '\n' + 1 := by
  rw [pieces, List.length_map, length_splitOn]

theorem pieces_join (lines : List String) :
    pieces (String.join (lines.map (· ++ "\n"))) = lines.flatMap pieces ++ [""] := by
  induction lines with
  | nil => rfl
  | cons line lines ih =>
    have split : (String.join ((line :: lines).map (· ++ "\n"))).toList =
        line.toList ++ '\n' :: (String.join (lines.map (· ++ "\n"))).toList := by
      simp
    rw [pieces, split, List.splitOn_append_cons_self, List.map_append, List.flatMap_cons,
      List.append_assoc, ← ih]
    rfl

theorem lines?_join (lines : List String) :
    lines? (String.join (lines.map (· ++ "\n"))) = some (lines.flatMap pieces) := by
  rw [lines?, pieces_join, List.getLast?_concat, if_pos rfl, List.dropLast_concat]

theorem length_flatMap_pieces (lines : List String) :
    (lines.flatMap pieces).length = lines.length + (lines.map (·.toList.count '\n')).sum := by
  induction lines with
  | nil => rfl
  | cons line lines ih =>
    rw [List.flatMap_cons, List.length_append, length_pieces, ih, List.length_cons, List.map_cons,
      List.sum_cons]
    omega

theorem flatMap_pieces_eq_iff : lines.flatMap pieces = lines ↔ ∀ line ∈ lines, '\n' ∉ line.toList := by
  constructor
  · -- A break in a line makes more pieces than there are lines.
    intro same line member broken
    have count := length_flatMap_pieces lines
    rw [same] at count
    have more : 0 < (lines.map (·.toList.count '\n')).sum :=
      List.sum_pos_iff_exists_pos_nat.mpr
        ⟨_, List.mem_map_of_mem member, List.count_pos_iff.mpr broken⟩
    omega
  · intro unbroken
    rw [List.flatMap_congr fun line member => pieces_of_not_mem (unbroken line member)]
    exact List.flatMap_singleton' lines

end Text

namespace Cst

variable {code : ByteArray} {t n : Cst}

/-- Line breaks stand between the tokens and in literals: the names of kinds, words and numbers
have none. -/
inductive Lexical (code : ByteArray) : Cst → Prop where
  | intro {t : Cst} (kind : '\n' ∉ t.kind.toList)
      (word : t.kind ∈ textKinds → t.kind ≠ "string_content" →
        ∀ v ∈ t.text? code, '\n' ∉ v.toList)
      (below : ∀ c ∈ t.children, c.Lexical code) : Lexical code t

/-- The text of a literal, or of a part of one, has a line break. -/
def Breaks (code : ByteArray) (t : Cst) : Prop :=
  ∃ n, t.Contains n ∧ n.kind = "string_content" ∧ ∃ v, n.text? code = some v ∧ '\n' ∈ v.toList

theorem Lexical.of_contains (lexical : t.Lexical code) (contains : t.Contains n) :
    n.Lexical code := by
  induction contains with
  | here => exact lexical
  | step child _ ih =>
    obtain ⟨-, -, below⟩ := lexical
    exact ih (below _ child)

theorem Lexical.breaks_of_spells (lexical : t.Lexical code) (spells : t.Spells code '\n') :
    t.Breaks code := by
  rcases spells with ellipsis | ⟨n, contains, kind, v, text, broken⟩
  · simp at ellipsis
  · obtain ⟨-, word, -⟩ := lexical.of_contains contains
    refine ⟨n, contains, ?_, v, text, broken⟩
    apply Decidable.byContradiction
    intro other
    exact word kind other v text broken

end Cst

theorem Context.mem_line_iff {c : Context} :
    '\n' ∈ c.line.toList ↔
      '\n' ∈ c.start.toList ∨ '\n' ∈ c.path.toList ∨ '\n' ∈ c.finish.toList := by
  simp [line]

namespace Command

variable {host : Host} {arguments : List String} {input : Option String} {settings : Settings}
  {text : String} {s : Snippet}

theorem contexts_of_parse (configured : host.settings = .ok settings)
    (given : source host input = .ok text) (parsed : host.grammar.parse text = .ok s) :
    host.contexts input = .ok (s.ast.extract settings) := by
  rw [Host.contexts, configured]
  dsimp only
  rw [extracted, given]
  dsimp only
  rw [Grammar.extract, parsed]
  rfl

theorem print_lines (contexts : List Context) :
    Format.lines.print contexts = String.join ((contexts.map Context.line).map (· ++ "\n")) := by
  rw [Format.print, List.map_map]
  rfl

theorem run_lines (asked : Request.of? arguments = some (.action (.extract input .lines)))
    (configured : host.settings = .ok settings) (given : source host input = .ok text)
    (parsed : host.grammar.parse text = .ok s) :
    (run host arguments).code = 0 ∧
      Text.lines? (run host arguments).stdout =
        some (((s.ast.extract settings).map Context.line).flatMap Text.pieces) := by
  rw [run_of_extract host asked, contexts_of_parse configured given parsed]
  refine ⟨rfl, ?_⟩
  rw [← Text.lines?_join, ← print_lines]

theorem mem_line_iff_of_lexical {c : Context} (lexical : s.tree.Lexical s.code.toUTF8)
    (member : c ∈ s.ast.extract settings) :
    '\n' ∈ c.line.toList ↔ '\n' ∈ c.start.toList ∨ '\n' ∈ c.finish.toList := by
  have path : '\n' ∉ c.path.toList := by
    intro broken
    rcases (Ast.spells_of_mem_extract member).2 _ broken with mark | ⟨n, contains, kind⟩
    · exact absurd mark (by decide)
    · obtain ⟨plain, -, -⟩ := lexical.of_contains contains
      exact plain kind
  rw [Context.mem_line_iff, or_iff_right path]

/-- What is printed has a line for each context and one more for each line break in a context, and
ends all of them. They are the lines of the contexts just when no token has a line break, and only
a literal with one gives such a token. -/
theorem lines_read_back_iff (asked : Request.of? arguments = some (.action (.extract input .lines)))
    (configured : host.settings = .ok settings) (given : source host input = .ok text)
    (parsed : host.grammar.parse text = .ok s) :
    let contexts := s.ast.extract settings
    let printed := (run host arguments).stdout
    let broken (c : Context) := '\n' ∈ c.start.toList ∨ '\n' ∈ c.finish.toList
    (run host arguments).code = 0 ∧
    (∃ lines, Text.lines? printed = some lines ∧
      lines.length = contexts.length + (contexts.map (·.line.toList.count '\n')).sum) ∧
    (s.tree.Lexical s.code.toUTF8 →
      (Text.lines? printed = some (contexts.map Context.line) ↔ ∀ c ∈ contexts, ¬ broken c) ∧
      ∀ c ∈ contexts, broken c → s.tree.Breaks s.code.toUTF8) := by
  intro contexts printed broken
  obtain ⟨code, lines⟩ := run_lines asked configured given parsed
  refine ⟨code, ⟨_, lines, ?_⟩, fun lexical => ⟨?_, ?_⟩⟩
  · rw [Text.length_flatMap_pieces, List.length_map, List.map_map]
    rfl
  · rw [lines, Option.some.injEq, Text.flatMap_pieces_eq_iff, List.forall_mem_map]
    exact forall₂_congr fun c member => not_congr (mem_line_iff_of_lexical lexical member)
  · intro c member token
    exact lexical.breaks_of_spells ((Ast.spells_of_mem_extract member).1 _ token)

/-! ### A literal with a break in it -/

def literalText (gap : String) : String := "s = '''a" ++ gap ++ "b''' + c"

def nodeBehind (row start : Nat) (kind : String) (named : Bool) (first last : Nat)
    (field : Option String) : Cst :=
  .node ⟨kind, named, false, false, false, false, first, last, row, first - start, field⟩ []

def literalString (row start : Nat) : Cst :=
  .node ⟨"string", true, false, false, false, false, 4, 13, 0, 4, some "left"⟩
    [nodeBehind 0 0 "string_start" true 4 7 none, nodeBehind 0 0 "string_content" true 7 10 none,
      nodeBehind row start "string_end" true 10 13 none]

def literalSum (row start : Nat) : Cst :=
  .node ⟨"binary_operator", true, false, false, false, false, 4, 17, 0, 4, some "right"⟩
    [literalString row start, nodeBehind row start "+" false 14 15 (some "operator"),
      nodeBehind row start "identifier" true 16 17 (some "right")]

def literalCst (row start : Nat) : Cst :=
  .node ⟨"module", true, false, false, false, false, 0, 17, 0, 0, none⟩
    [.node ⟨"expression_statement", true, false, false, false, false, 0, 17, 0, 0, none⟩
      [.node ⟨"assignment", true, false, false, false, false, 0, 17, 0, 0, none⟩
        [nodeBehind 0 0 "identifier" true 0 1 (some "left"), nodeBehind 0 0 "=" false 2 3 none,
          literalSum row start]]]

def literalHost (gap : String) (row start : Nat) : Host :=
  { grammar := fun _ => literalCst row start, environment := [], files := ⟨[]⟩,
    stdin := (literalText gap).toUTF8, entropy := fun _ => 0 }

def literalContexts (gap : String) : List Context :=
  [⟨"s", "(identifier)^(assignment)_(binary_operator)_(string)", "a" ++ gap ++ "b"⟩,
    ⟨"s", "(identifier)^(assignment)_(binary_operator)_(identifier)", "c"⟩,
    ⟨"a" ++ gap ++ "b", "(string)^(binary_operator)_(identifier)", "c"⟩]

theorem request_lines :
    Request.of? ["extract", "--format", "lines"] = some (.action (.extract none .lines)) := by
  decide +kernel

section

variable (gap : String) (row start : Nat)

theorem settings_literalHost : (literalHost gap row start).settings = .ok {} := rfl

theorem source_literalHost :
    source (literalHost gap row start) none = .ok (literalText gap) := by
  rw [source, literalHost, Text.fromUTF8?_toUTF8]

theorem parse_literalHost :
    (literalHost gap row start).grammar.parse (literalText gap) =
      .ok ⟨literalCst row start, literalText gap, false⟩ := by
  apply Grammar.parse_of_sound
  rw [Cst.sound_iff]
  exact ⟨rfl, rfl⟩

end

theorem extract_literal :
    (Snippet.mk (literalCst 0 0) (literalText " ") false).ast.extract {} = literalContexts " " ∧
      (Snippet.mk (literalCst 1 9) (literalText "\n") false).ast.extract {} =
        literalContexts "\n" := by
  constructor <;>
  · rw [Snippet.ast, Ast.ofCst, Ast.extract_eq_take,
      Ast.remaining_leaves (Ast.grown_ofPlace _ _).arranged]
    decide +kernel

theorem lexical_nodeBehind {code : ByteArray} {row start first last : Nat} {kind : String}
    {named : Bool} {field : Option String} (plain : '\n' ∉ kind.toList)
    (word : kind ∈ textKinds → kind ≠ "string_content" →
      ∀ v ∈ (nodeBehind row start kind named first last field).text? code, '\n' ∉ v.toList) :
    (nodeBehind row start kind named first last field).Lexical code :=
  .intro plain word nofun

theorem lexical_literalSum : (literalSum 0 0).Lexical (literalText " ").toUTF8 := by
  have string : (literalString 0 0).Lexical (literalText " ").toUTF8 := by
    refine .intro (by decide) (by decide) ?_
    simp only [literalString, Cst.children_node, List.forall_mem_cons]
    exact ⟨lexical_nodeBehind (by decide) (by decide), lexical_nodeBehind (by decide) (by decide),
      lexical_nodeBehind (by decide) (by decide), nofun⟩
  refine .intro (by decide) (by decide) ?_
  simp only [literalSum, Cst.children_node, List.forall_mem_cons]
  exact ⟨string, lexical_nodeBehind (by decide) (by decide),
    lexical_nodeBehind (by decide) (by decide +kernel), nofun⟩

theorem lexical_literalCst : (literalCst 0 0).Lexical (literalText " ").toUTF8 := by
  refine .intro (by decide) (by decide) (List.forall_mem_singleton.mpr ?_)
  refine .intro (by decide) (by decide) (List.forall_mem_singleton.mpr ?_)
  refine .intro (by decide) (by decide) ?_
  simp only [Cst.children_node, List.forall_mem_cons]
  exact ⟨lexical_nodeBehind (by decide) (by decide +kernel),
    lexical_nodeBehind (by decide) (by decide), lexical_literalSum, nofun⟩

theorem lines_read_back_of_blank :
    (literalCst 0 0).Lexical (literalText " ").toUTF8 ∧
      (run (literalHost " " 0 0) ["extract", "--format", "lines"]).code = 0 ∧
      Text.lines? (run (literalHost " " 0 0) ["extract", "--format", "lines"]).stdout =
        some ["s,(identifier)^(assignment)_(binary_operator)_(string),a b",
          "s,(identifier)^(assignment)_(binary_operator)_(identifier),c",
          "a b,(string)^(binary_operator)_(identifier),c"] := by
  obtain ⟨code, -, whole⟩ := lines_read_back_iff request_lines (settings_literalHost " " 0 0)
    (source_literalHost " " 0 0) (parse_literalHost " " 0 0)
  refine ⟨lexical_literalCst, code, ?_⟩
  rw [(whole lexical_literalCst).1.mpr]
  · rw [extract_literal.1]
    rfl
  · rw [extract_literal.1]
    decide

/-- The line break in the literal is printed, and three contexts take five lines. -/
theorem literal_breaks_lines :
    let printed := (run (literalHost "\n" 1 9) ["extract", "--format", "lines"]).stdout
    (literalHost "\n" 1 9).contexts none = .ok (literalContexts "\n") ∧
    Text.lines? printed =
      some ["s,(identifier)^(assignment)_(binary_operator)_(string),a", "b",
        "s,(identifier)^(assignment)_(binary_operator)_(identifier),c", "a",
        "b,(string)^(binary_operator)_(identifier),c"] ∧
    Text.lines? printed ≠ some ((literalContexts "\n").map Context.line) := by
  have lines := (run_lines request_lines (settings_literalHost "\n" 1 9)
    (source_literalHost "\n" 1 9) (parse_literalHost "\n" 1 9)).2
  have found := contexts_of_parse (settings_literalHost "\n" 1 9) (source_literalHost "\n" 1 9)
    (parse_literalHost "\n" 1 9)
  rw [extract_literal.2] at lines found
  intro printed
  rw [show Text.lines? printed = _ from lines]
  refine ⟨found, rfl, ?_⟩
  intro same
  exact absurd (congrArg List.length (Option.some.inj same)) (by decide)

end Command
end LeafPaths
