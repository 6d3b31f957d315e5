import LeafPaths.Proofs.Snippet.Layout

/-!
What is wrong with the layout of a tree. The rules are said of one node at a time, and the fault of
a tree is that of the first node that breaks one: in pre-order, over named nodes.
-/

namespace LeafPaths

def Fault.shown (f : Fault) : Nat × Nat × String := (f.line, f.column, f.complaint.message)

namespace Cst

def shows (blamed : Cst) (text : String) : Nat × Nat × String :=
  (blamed.info.row + 1, blamed.info.column + 1, text)

/-! ### The rules -/

/-- The statements of a module or block but for those right after a `;`. -/
def flush (n : Cst) : List Cst :=
  (((none :: n.children.map some).zip n.children).filter fun neighbours =>
    neighbours.2.info.named && !neighbours.2.info.extra &&
      neighbours.1.all (·.kind ≠ ";")).map (·.2)

def Hollow (n : Cst) : Prop := n.info.firstByte = n.info.endByte ∨ n.statements = []

inductive Margin (n : Cst) : (column : Nat) → Prop where
  | module (isModule : n.kind = "module") : Margin n 0
  | block (isBlock : n.kind = "block") (full : ¬ n.Hollow) {first : Cst}
      (opener : n.flush.head? = some first) : Margin n first.info.column

/-- A rule that the node breaks: the node that is to blame, and what is said about it. -/
inductive Violates (n : Cst) : (blamed : Cst) → (text : String) → Prop where
  | outdated {keyword : String} (old : keyword = "print" ∨ keyword = "exec")
      (statement : n.kind = keyword ++ "_statement") :
      Violates n n ("`" ++ keyword ++ "` statement is Python 2 syntax")
  | hollow (isBlock : n.kind = "block") (hollow : n.Hollow) :
      Violates n n "expected an indented block"
  | indented {column : Nat} (margin : n.Margin column) {c : Cst}
      (first : n.flush.find? (fun c => c.info.column ≠ column) = some c)
      (right : column < c.info.column) : Violates n c "unexpected indent"
  | dedented {column : Nat} (margin : n.Margin column) {c : Cst}
      (first : n.flush.find? (fun c => c.info.column ≠ column) = some c)
      (left : c.info.column < column) :
      Violates n c "unindent does not match any outer indentation level"

variable {t n blamed : Cst} {text : String} {column : Nat} {shown : Nat × Nat × String}

/-! ### Columns -/

theorem lineOpeners_eq (before : Option Cst) (children : List Cst) :
    lineOpeners before children =
      (((before :: children.map some).zip children).filter fun neighbours =>
        neighbours.2.kept && neighbours.1.all (·.kind ≠ ";")).map (·.2) := by
  induction children generalizing before with
  | nil => rfl
  | cons c later ih =>
    have unmarked : (!before.any (·.kind == ";")) = before.all (·.kind ≠ ";") := by
      rw [Bool.eq_iff_iff]
      cases before <;> simp
    rw [lineOpeners, unmarked, ih, List.map_cons, List.zip_cons_cons, List.filter_cons]
    split <;> rfl

theorem lineOpeners_children (n : Cst) : lineOpeners none n.children = n.flush :=
  lineOpeners_eq none n.children

def misplaced? (n : Cst) (column : Nat) : Option Fault :=
  (n.flush.find? fun c => c.info.column ≠ column).map (outOf column)

theorem checkColumns?_children (n : Cst) (column : Nat) :
    checkColumns? (some column) none n.children = n.misplaced? column := by
  rw [checkColumns?_some, lineOpeners_children, misplaced?]

theorem hollow_iff (n : Cst) :
    n.Hollow ↔ n.info.firstByte = n.info.endByte ∨ n.children.all (!·.kept) = true := by
  rw [Hollow, statements_eq, List.filter_eq_nil_iff, List.all_eq_true]
  simp

/-! ### One node -/

theorem layoutFault?_of_margin (margin : n.Margin column) :
    n.layoutFault? = n.misplaced? column := by
  cases margin with
  | module isModule =>
    rw [layoutFault?, isModule, if_neg (by decide), if_neg (by decide), if_pos rfl,
      checkColumns?_children]
  | block isBlock full opener =>
    rw [hollow_iff] at full
    rw [layoutFault?, isBlock, if_neg (by decide), if_neg (by decide), if_neg (by decide),
      if_pos rfl, if_neg full, checkColumns?_none, lineOpeners_children, opener, Option.bind_some,
      checkColumns?_children]

theorem layoutFault?_of_violates (violates : n.Violates blamed text) :
    n.layoutFault?.map Fault.shown = some (blamed.shows text) := by
  cases violates with
  | outdated old statement =>
    rcases old with rfl | rfl
    · have isPrint : n.kind = "print_statement" := statement
      rw [layoutFault?, if_pos isPrint]
      rfl
    · have isExec : n.kind = "exec_statement" := statement
      rw [layoutFault?, isExec, if_neg (by decide), if_pos rfl]
      rfl
  | hollow isBlock hollow =>
    rw [hollow_iff] at hollow
    rw [layoutFault?, isBlock, if_neg (by decide), if_neg (by decide), if_neg (by decide),
      if_pos rfl, if_pos hollow]
    rfl
  | indented margin first right =>
    rw [layoutFault?_of_margin margin, misplaced?, first, Option.map_some, outOf,
      if_pos right]
    rfl
  | dedented margin first left =>
    rw [layoutFault?_of_margin margin, misplaced?, first, Option.map_some, outOf,
      if_neg (Nat.lt_asymm left)]
    rfl

theorem Margin.exists_violates (margin : n.Margin column) {f : Fault}
    (found : n.misplaced? column = some f) : ∃ blamed text, n.Violates blamed text := by
  obtain ⟨c, first, -⟩ := Option.map_eq_some_iff.mp found
  have off : c.info.column ≠ column := by simpa using List.find?_some first
  rcases Nat.lt_or_gt_of_ne off with left | right
  · exact ⟨c, _, .dedented margin first left⟩
  · exact ⟨c, _, .indented margin first right⟩

theorem exists_violates {f : Fault} (found : n.layoutFault? = some f) :
    ∃ blamed text, n.Violates blamed text := by
  have own := found
  rw [layoutFault?] at found
  split at found
  next statement => exact ⟨n, _, .outdated (Or.inl rfl) statement⟩
  split at found
  next statement => exact ⟨n, _, .outdated (Or.inr rfl) statement⟩
  split at found
  next isModule =>
    rw [layoutFault?_of_margin (.module isModule)] at own
    exact (Margin.module isModule).exists_violates own
  split at found
  next isBlock =>
    split at found
    next hollow => exact ⟨n, _, .hollow isBlock ((hollow_iff n).mpr hollow)⟩
    next full =>
      rw [← hollow_iff] at full
      rw [checkColumns?_none, lineOpeners_children] at found
      obtain ⟨first, opener, misplaced⟩ := Option.bind_eq_some_iff.mp found
      rw [checkColumns?_children] at misplaced
      exact (Margin.block isBlock full opener).exists_violates misplaced
  next => cases found

theorem layoutFault?_shown_iff :
    n.layoutFault?.map Fault.shown = some shown ↔
      ∃ blamed text, n.Violates blamed text ∧ shown = blamed.shows text := by
  constructor
  · intro found
    obtain ⟨f, own, -⟩ := Option.map_eq_some_iff.mp found
    obtain ⟨blamed, text, violates⟩ := exists_violates own
    refine ⟨blamed, text, violates, ?_⟩
    exact Option.some.inj (found.symm.trans (layoutFault?_of_violates violates))
  · rintro ⟨blamed, text, violates, rfl⟩
    exact layoutFault?_of_violates violates

theorem layoutFault?_eq_none_iff :
    n.layoutFault? = none ↔ ∀ blamed text, ¬ n.Violates blamed text := by
  constructor
  · intro sound blamed text violates
    have found := layoutFault?_of_violates violates
    rw [sound] at found
    cases found
  · intro obeys
    cases own : n.layoutFault? with
    | none => rfl
    | some f =>
      obtain ⟨blamed, text, violates⟩ := exists_violates own
      exact (obeys blamed text violates).elim

/-! ### The whole tree -/

/-- The layout of a tree is accepted when no node that is reached breaks a rule. Otherwise what is
shown is about the first that does, and about no node below it. -/
theorem checkLayout?_first_violation (t : Cst) :
    (∀ n, n ∈ t.reached ↔ t.Reaches n) ∧
    (t.checkLayout? = none ↔ ∀ n, t.Reaches n → ∀ blamed text, ¬ n.Violates blamed text) ∧
    ∀ shown, t.checkLayout?.map Fault.shown = some shown ↔
      ∃ earlier n later blamed text, t.reached = earlier ++ n :: later ∧
        (∀ m ∈ earlier, ∀ blamed text, ¬ m.Violates blamed text) ∧
        n.Violates blamed text ∧ shown = blamed.shows text := by
  refine ⟨fun n => mem_reached_iff, ?_, ?_⟩
  · rw [checkLayout?_eq_findSome?, List.findSome?_eq_none_iff]
    simp only [mem_reached_iff, layoutFault?_eq_none_iff]
  · intro shown
    rw [checkLayout?_eq_findSome?]
    constructor
    · intro found
      obtain ⟨f, first, rfl⟩ := Option.map_eq_some_iff.mp found
      obtain ⟨earlier, n, later, split, own, sound⟩ := List.findSome?_eq_some_iff.mp first
      have blames : n.layoutFault?.map Fault.shown = some f.shown := by rw [own, Option.map_some]
      obtain ⟨blamed, text, violates, same⟩ := layoutFault?_shown_iff.mp blames
      refine ⟨earlier, n, later, blamed, text, split, ?_, violates, same⟩
      intro m member
      exact layoutFault?_eq_none_iff.mp (sound m member)
    · rintro ⟨earlier, n, later, blamed, text, split, sound, violates, rfl⟩
      have passed : earlier.findSome? layoutFault? = none := by
        rw [List.findSome?_eq_none_iff]
        intro m member
        exact layoutFault?_eq_none_iff.mpr (sound m member)
      have own := layoutFault?_of_violates violates
      obtain ⟨f, fault, -⟩ := Option.map_eq_some_iff.mp own
      rw [split, List.findSome?_append, passed, List.findSome?_cons, fault]
      rw [fault] at own
      exact own

end Cst
end LeafPaths
