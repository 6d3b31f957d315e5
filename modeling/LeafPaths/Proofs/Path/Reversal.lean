import LeafPaths.Proofs.Ast.Walk

/-!
Paths from the other end. Whether two nodes have a path, and over which node it turns, does not
depend on which of them is the start; only the two ways to that node are exchanged.
-/

namespace LeafPaths.Ast

variable {t : Ast} {limits : Limits} {width top start finish : Nat}

theorem TooWide.symm (wide : t.TooWide width top start finish) :
    t.TooWide width top finish start := by
  obtain ⟨below, below', i, j, a, b, listed, above, listed', above', far⟩ := wide
  exact ⟨below', below, j, i, b, a, listed', above', listed, above, far.symm⟩

theorem Refused.symm (refused : t.Refused limits top start finish) :
    t.Refused limits top finish start := by
  rcases refused with same | long | wide
  · exact Or.inl same.symm
  · exact Or.inr (Or.inl (by omega))
  · exact Or.inr (Or.inr wide.symm)

theorem refused_comm : t.Refused limits top finish start ↔ t.Refused limits top start finish :=
  ⟨Refused.symm, Refused.symm⟩

theorem Arranged.path?_comm (arranged : t.Arranged) (limits : Limits) (hs : start < t.size)
    (hf : finish < t.size) :
    t.path? limits finish start = (t.path? limits start finish).map Path.reverse := by
  obtain ⟨top, up, down, turn, climb, climb'⟩ := arranged.exists_climbs hs hf
  obtain ⟨none_of, some_of⟩ := arranged.path?_of_turn turn climb climb' limits
  obtain ⟨none_of', some_of'⟩ := arranged.path?_of_turn turn.symm climb' climb limits
  rw [refused_comm] at none_of' some_of'
  by_cases refused : t.Refused limits top start finish
  · rw [none_of refused, none_of' refused]
    rfl
  · rw [some_of refused, some_of' refused]
    simp [Path.reverse]

theorem Passes.exists_walk {path : Path} (passes : t.Passes start finish path) :
    ∃ steps, t.Walk start steps finish ∧ path.text = t.walkText start steps ∧
      path.reverse.text = t.walkText finish (retrace steps) := by
  obtain ⟨top, up, down, -, climb, climb', rfl⟩ := passes
  refine ⟨_, climb.walk_over climb', climb.walkText_eq.symm, ?_⟩
  rw [retrace_append, retrace_retrace, climb'.walkText_eq]
  simp [Path.reverse]

/-- Between two nodes there is a path in both directions or in none. The way back has the kinds in
reverse, and in its text each step over an edge carries the other mark. -/
theorem path?_mirrored (grown : t.Grown) (limits : Limits) (hs : start < t.size)
    (hf : finish < t.size) :
    ((t.path? limits finish start).isSome ↔ (t.path? limits start finish).isSome) ∧
    ∀ path, t.path? limits start finish = some path →
      ∃ back, t.path? limits finish start = some back ∧
        back.up = path.down.reverse ∧ back.top = path.top ∧ back.down = path.up.reverse ∧
        back.up ++ back.top :: back.down = (path.up ++ path.top :: path.down).reverse ∧
        ∃ steps, t.Walk start steps finish ∧ path.text = t.walkText start steps ∧
          back.text = t.walkText finish (retrace steps) := by
  have arranged := grown.arranged
  have mirrored := arranged.path?_comm limits hs hf
  refine ⟨by rw [mirrored, Option.isSome_map], ?_⟩
  intro path found
  have passes := arranged.passes_of_path? hs hf found
  refine ⟨path.reverse, by rw [mirrored, found]; rfl, rfl, rfl, rfl, ?_, passes.exists_walk⟩
  simp [Path.reverse]

theorem path?_mirrored_in_assignment :
    assignmentTree.Grown ∧ 3 < assignmentTree.size ∧ 1 < assignmentTree.size ∧
      (assignmentTree.path? ⟨2, 0⟩ 3 1).map Path.text =
        some "(identifier)^(assignment)^(expression_statement)" ∧
      ∃ back, assignmentTree.path? ⟨2, 0⟩ 1 3 = some back ∧
        back.up = [] ∧ back.top = "expression_statement" ∧
        back.down = ["assignment", "identifier"] := by
  have found : assignmentTree.path? ⟨2, 0⟩ 3 1 =
      some ⟨["identifier", "assignment"], "expression_statement", []⟩ := by
    cbv
  obtain ⟨-, mirrored⟩ := path?_mirrored grown_assignmentTree ⟨2, 0⟩
    (by decide : 3 < assignmentTree.size) (by decide : 1 < assignmentTree.size)
  obtain ⟨back, way, up, top, down, -⟩ := mirrored _ found
  exact ⟨grown_assignmentTree, by decide, by decide, by rw [found]; rfl, back, way, up, top, down⟩

end LeafPaths.Ast
