import LeafPaths.Proofs.Snippet.Layout

/-!
Which statements of an accepted tree are aligned. A statement is held to the column of its module
or block unless it comes right after a `;`, on the grounds that it shares a line with the one
before. A `;` may end its line, though, and then the statement below it may begin anywhere.
-/

namespace LeafPaths.Cst

/-- The column in which the statements of a module or block are to begin. -/
def column? (n : Cst) : Option Nat :=
  if n.kind = "module" then some 0
  else if n.kind = "block" then n.statements.head?.map (·.info.column)
  else none

/-- `c` is a statement of `n`, and `before` are the nodes of `n` before it. -/
def StatementAfter (n : Cst) (before : List Cst) (c : Cst) : Prop :=
  c.kept ∧ ∃ after, n.children = before ++ c :: after

def OpensLine (before : List Cst) (c : Cst) : Prop :=
  ∀ p, before.getLast? = some p → p.info.row ≠ c.info.row

def InColumn (n c : Cst) : Prop := ∀ column, n.column? = some column → c.info.column = column

/-- The statements of a module or block that open a line begin in its column. -/
def Aligned (n : Cst) : Prop :=
  ∀ before c, n.StatementAfter before c → OpensLine before c → n.InColumn c

def AfterMark (before : List Cst) : Prop := ∃ mark, before.getLast? = some mark ∧ mark.kind = ";"

/-- The column of a statement with `before` in front of it is not checked: the statement comes
right after a `;`, or the one does from which the block takes its column. -/
def Overlooked (n : Cst) (before : List Cst) : Prop :=
  AfterMark before ∨ n.kind = "block" ∧ ∃ earlier first, n.StatementAfter earlier first ∧
    n.statements.head? = some first ∧ AfterMark earlier

variable {n c : Cst} {before : List Cst}

theorem mem_lineOpeners_of_statement (statement : n.StatementAfter before c)
    (unmarked : ¬ AfterMark before) : c ∈ lineOpeners none n.children := by
  obtain ⟨kept, after, children⟩ := statement
  rw [children]
  apply mem_lineOpeners kept
  rw [Option.or_none, Bool.eq_false_iff]
  intro marked
  obtain ⟨mark, last, kind⟩ := (Option.any_eq_true _ _).mp marked
  exact unmarked ⟨mark, last, by simpa using kind⟩

theorem exists_statement_of_head? {first : Cst} (head : n.statements.head? = some first) :
    ∃ earlier, n.StatementAfter earlier first := by
  have member : first ∈ n.statements := List.mem_of_head? head
  obtain ⟨listed, kept⟩ := List.mem_filter.mp member
  obtain ⟨earlier, after, children⟩ := List.append_of_mem listed
  exact ⟨earlier, kept, after, children⟩

theorem inColumn_of_not_overlooked (sound : n.layoutFault? = none)
    (statement : n.StatementAfter before c) (seen : ¬ n.Overlooked before) : n.InColumn c := by
  have opener := mem_lineOpeners_of_statement statement fun marked => seen (Or.inl marked)
  intro column expected
  rw [column?] at expected
  split at expected
  next isModule =>
    obtain rfl := Option.some.inj expected
    exact column_of_module isModule sound opener
  next =>
    split at expected
    next isBlock =>
      obtain ⟨first, head, rfl⟩ := Option.map_eq_some_iff.mp expected
      obtain ⟨earlier, statement'⟩ := exists_statement_of_head? head
      have opener' := mem_lineOpeners_of_statement statement' fun marked =>
        seen (Or.inr ⟨isBlock, earlier, first, statement', head, marked⟩)
      exact column_eq_of_block isBlock sound opener opener'
    next => cases expected

/-- Acceptance says that all statements that are not overlooked are in their columns, and no more:
the lines of the tree are aligned just when the overlooked statements that open one are. -/
theorem aligned_iff_overlooked_inColumn {t : Cst} (accepted : t.checkLayout? = none) :
    (∀ n before c, t.Reaches n → n.StatementAfter before c → ¬ n.Overlooked before →
      n.InColumn c) ∧
    ((∀ n, t.Reaches n → n.Aligned) ↔
      ∀ n before c, t.Reaches n → n.StatementAfter before c → OpensLine before c →
        n.Overlooked before → n.InColumn c) := by
  have seen : ∀ n before c, t.Reaches n → n.StatementAfter before c → ¬ n.Overlooked before →
      n.InColumn c := by
    intro n before c reaches statement
    exact inColumn_of_not_overlooked (layoutFault?_of_reaches accepted reaches) statement
  refine ⟨seen, ?_, ?_⟩
  · intro aligned n before c reaches statement opens _
    exact aligned n reaches before c statement opens
  · intro rest n reaches before c statement opens
    by_cases overlooked : n.Overlooked before
    · exact rest n before c reaches statement opens overlooked
    · exact seen n before c reaches statement overlooked

/-! ### A statement after a `;` -/

def wordAt (first row column : Nat) : Cst :=
  .node ⟨"expression_statement", true, false, false, false, false, first, first + 1, row, column, none⟩
    [.node ⟨"identifier", true, false, false, false, false, first, first + 1, row, column, none⟩ []]

/-- The lines `    b;` below `if a:`, and a word after them. -/
def blockWith (word : Cst) : Cst :=
  .node ⟨"block", true, false, false, false, false, 10, word.info.endByte, 1, 4, some "consequence"⟩
    [wordAt 10 1 4, .node ⟨";", false, false, false, false, false, 11, 12, 1, 5, none⟩ [], word]

def branchWith (word : Cst) : Cst :=
  .node ⟨"module", true, false, false, false, false, 0, word.info.endByte + 1, 0, 0, none⟩
    [.node ⟨"if_statement", true, false, false, false, false, 0, word.info.endByte, 0, 0, none⟩
      [.node ⟨"if", false, false, false, false, false, 0, 2, 0, 0, none⟩ [],
        .node ⟨"identifier", true, false, false, false, false, 3, 4, 0, 3, some "condition"⟩ [],
        .node ⟨":", false, false, false, false, false, 4, 5, 0, 4, none⟩ [],
        blockWith word]]

theorem branchWith_reaches_block (word : Cst) : (branchWith word).Reaches (blockWith word) := by
  refine .step List.mem_cons_self (.step ?_ .here)
  exact List.mem_cons_of_mem _ List.mem_cons_self

theorem Overlooked.exists_mark (overlooked : n.Overlooked before) (statement : n.StatementAfter before c) :
    ∃ mark ∈ n.children, mark.kind = ";" := by
  have listed : ∀ {earlier : List Cst} {d : Cst}, n.StatementAfter earlier d → AfterMark earlier →
      ∃ mark ∈ n.children, mark.kind = ";" := by
    rintro earlier d ⟨-, after, children⟩ ⟨mark, last, kind⟩
    refine ⟨mark, ?_, kind⟩
    rw [children]
    exact List.mem_append_left _ (List.mem_of_getLast? last)
  rcases overlooked with marked | ⟨-, earlier, first, statement', -, marked⟩
  · exact listed statement marked
  · exact listed statement' marked

theorem wordAt_reaches {first row column : Nat} (reaches : (wordAt first row column).Reaches n) :
    ∀ mark ∈ n.children, mark.kind ≠ ";" := by
  rcases reaches with _ | ⟨child, reaches⟩
  · simp [wordAt, kind]
  · obtain rfl := List.mem_singleton.mp child
    rcases reaches with _ | ⟨child, -⟩
    · simp
    · cases child

/-- In `if a:`, `    b;`, `      c` the last line is accepted two columns too far to the right. -/
theorem accepted_not_aligned :
    (branchWith (wordAt 19 2 6)).checkLayout? = none ∧
      ∃ n, (branchWith (wordAt 19 2 6)).Reaches n ∧ ¬ n.Aligned := by
  refine ⟨?_, _, branchWith_reaches_block _, ?_⟩
  · rw [checkLayout?_eq_findSome?]
    decide +kernel
  intro aligned
  have statement : (blockWith (wordAt 19 2 6)).StatementAfter
      [wordAt 10 1 4, .node ⟨";", false, false, false, false, false, 11, 12, 1, 5, none⟩ []]
      (wordAt 19 2 6) := ⟨rfl, [], rfl⟩
  have opens : OpensLine
      [wordAt 10 1 4, .node ⟨";", false, false, false, false, false, 11, 12, 1, 5, none⟩ []]
      (wordAt 19 2 6) := by
    intro mark last
    obtain rfl := Option.some.inj last
    decide
  have column := aligned _ _ statement opens 4 rfl
  cases column

def twoWords : Cst :=
  .node ⟨"module", true, false, false, false, false, 0, 4, 0, 0, none⟩
    [wordAt 0 0 0, .node ⟨";", false, false, false, false, false, 1, 2, 0, 1, none⟩ [], wordAt 3 0 3]

theorem twoWords_aligned :
    twoWords.checkLayout? = none ∧ ∀ n, twoWords.Reaches n → n.Aligned := by
  have accepted : twoWords.checkLayout? = none := by
    rw [checkLayout?_eq_findSome?]
    decide +kernel
  refine ⟨accepted, (aligned_iff_overlooked_inColumn accepted).2.mpr ?_⟩
  intro n before c reaches statement opens overlooked
  obtain ⟨mark, member, marked⟩ := overlooked.exists_mark statement
  cases reaches with
  | here =>
    -- The module has three children, of which the statement is the first or the last.
    obtain ⟨kept, after, children⟩ := statement
    rcases before with _ | ⟨_, _ | ⟨second, _ | ⟨_, before⟩⟩⟩
    · obtain rfl := (List.cons.inj children).1
      intro column expected
      exact Option.some.inj expected
    · obtain rfl := (List.cons.inj (List.cons.inj children).2).1
      cases kept
    · obtain ⟨rfl, rest⟩ := List.cons.inj (List.cons.inj children).2
      obtain rfl := (List.cons.inj rest).1
      exact (opens _ rfl rfl).elim
    · have longer := congrArg List.length children
      simp [twoWords] at longer
  | step child reaches =>
    rcases List.mem_cons.mp child with rfl | child
    · exact absurd marked (wordAt_reaches reaches mark member)
    · obtain rfl := List.mem_singleton.mp child
      exact absurd marked (wordAt_reaches reaches mark member)

end LeafPaths.Cst
