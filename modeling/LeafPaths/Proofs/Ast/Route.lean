import LeafPaths.Ast.Route
import LeafPaths.Proofs.Ast.Ancestry

/-!
The path between two nodes, said by the tree alone: it climbs from the start to the deepest node
that is at or above both ends, and goes down from there to the other end. `path?` finds it by
comparing two lineages; `path?_of_turn` shows that both are the same, limits included.
-/

namespace LeafPaths

/-! ### Agreement of lists -/

section

variable [DecidableEq α] {as bs cs : List α}

theorem agreement_append_left : agreement (cs ++ as) (cs ++ bs) = cs.length + agreement as bs := by
  induction cs with
  | nil => simp
  | cons c cs ih =>
    rw [List.cons_append, List.cons_append, agreement, if_pos rfl, ih, List.length_cons]
    omega

theorem getElem?_length_sub_append {α : Type} {as bs : List α} (nonempty : as ≠ []) :
    (as ++ bs)[(as ++ bs).length - 1 - bs.length]? = as.getLast? := by
  have := List.length_pos_iff.mpr nonempty
  rw [List.length_append, List.getElem?_append_left (by omega), List.getLast?_eq_getElem?]
  congr 1
  omega

theorem agreement_eq_zero (apart : ∀ a, as.head? = some a → bs.head? ≠ some a) :
    agreement as bs = 0 := by
  cases as with
  | nil => rw [agreement]; simp
  | cons a as =>
    cases bs with
    | nil => rw [agreement]; simp
    | cons b bs =>
      have different : a ≠ b := by
        rintro rfl
        exact apart a rfl rfl
      rw [agreement, if_neg different]

end

namespace Ast

variable {t : Ast} {top start finish : Nat} {up down : List Nat}

/-- The two branches leave `top` more than `width` places apart. -/
def TooWide (t : Ast) (width top start finish : Nat) : Prop :=
  top ≠ start ∧ top ≠ finish ∧ ∃ i j a b,
    (t.children top)[i]? = some a ∧ t.Above a start ∧
    (t.children top)[j]? = some b ∧ t.Above b finish ∧ (i + width < j ∨ j + width < i)

/-- There is no path within the limits, given the turning point. -/
def Refused (t : Ast) (limits : Limits) (top start finish : Nat) : Prop :=
  start = finish ∨ limits.length < t.depth start + t.depth finish - 2 * t.depth top ∨
    t.TooWide limits.width top start finish

/-- No subtraction of a fork goes below zero, and no index past the end of its lineage. -/
structure Fork.InRange (f : Fork) : Prop where
  shared_pos : 0 < f.shared
  twice_shared_le : 2 * f.shared ≤ f.fromStart.length + f.fromFinish.length
  shared_le_start : f.shared ≤ f.fromStart.length
  shared_le_finish : f.shared ≤ f.fromFinish.length
  top_lt : f.fromStart.length - f.shared < f.fromStart.length
  below_start : f.shared < f.fromStart.length →
    f.shared + 1 ≤ f.fromStart.length ∧ f.fromStart.length - 1 - f.shared < f.fromStart.length
  below_finish : f.shared < f.fromFinish.length →
    f.shared + 1 ≤ f.fromFinish.length ∧ f.fromFinish.length - 1 - f.shared < f.fromFinish.length

/-! ### The fork of two nodes -/

namespace Arranged

variable (arranged : t.Arranged)
include arranged

/-- Climbs from two ends to the deepest node above both reach it by different children. -/
theorem getLast?_ne_of_turn (turn : t.Turn top start finish) (climb : t.Climb top start up)
    (climb' : t.Climb top finish down) {c : Nat} (last : up.getLast? = some c) :
    down.getLast? ≠ some c := by
  intro last'
  obtain ⟨child, above⟩ := climb.getLast? last
  obtain ⟨-, above'⟩ := climb'.getLast? last'
  have deeper := arranged.depth_of_parent child
  have shallow := turn.deepest c above above'
  omega

theorem fork_of_turn (turn : t.Turn top start finish) (climb : t.Climb top start up)
    (climb' : t.Climb top finish down) :
    t.fork start finish = ⟨up ++ t.lineage top, down ++ t.lineage top, (t.lineage top).length⟩ := by
  have apart : agreement up.reverse down.reverse = 0 := by
    apply agreement_eq_zero
    intro c
    rw [List.head?_reverse, List.head?_reverse]
    exact arranged.getLast?_ne_of_turn turn climb climb'
  rw [fork, arranged.lineage_of_climb climb, arranged.lineage_of_climb climb']
  simp only [List.reverse_append, agreement_append_left, List.length_reverse, apart, Nat.add_zero]

theorem length_fork_of_climb (turn : t.Turn top start finish) (climb : t.Climb top start up)
    (climb' : t.Climb top finish down) :
    (t.fork start finish).length = up.length + down.length := by
  rw [arranged.fork_of_turn turn climb climb', Fork.length]
  simp only [List.length_append]
  omega

theorem length_fork (turn : t.Turn top start finish) :
    (t.fork start finish).length = t.depth start + t.depth finish - 2 * t.depth top := by
  obtain ⟨up, climb⟩ := turn.above_start.exists_climb
  obtain ⟨down, climb'⟩ := turn.above_finish.exists_climb
  rw [arranged.length_fork_of_climb turn climb climb', arranged.depth_of_climb climb,
    arranged.depth_of_climb climb']
  omega

theorem length_lineage_pos (x : Nat) : 0 < (t.lineage x).length := by
  cases same : t.lineage x with
  | nil => simpa [same] using arranged.head?_lineage (x := x)
  | cons => simp

theorem inRange_fork (turn : t.Turn top start finish) : (t.fork start finish).InRange := by
  obtain ⟨up, climb⟩ := turn.above_start.exists_climb
  obtain ⟨down, climb'⟩ := turn.above_finish.exists_climb
  have nonempty := arranged.length_lineage_pos top
  rw [arranged.fork_of_turn turn climb climb']
  constructor <;> simp only [List.length_append] <;> omega

/-! ### Width -/

/-- The child of `top` on the way to a node strictly below it. -/
theorem getLast?_of_child (climb : t.Climb top start up) {c : Nat}
    (child : t.parent? c = some top) (above : t.Above c start) : up.getLast? = some c := by
  cases last : up.getLast? with
  | none =>
    obtain rfl := List.getLast?_eq_none_iff.mp last
    cases climb
    have before := arranged.parent_lt child
    have after := arranged.le_of_above above
    omega
  | some b =>
    obtain ⟨child', above'⟩ := climb.getLast? last
    have same : t.depth b = t.depth c := by
      rw [arranged.depth_of_parent child, arranged.depth_of_parent child']
    rw [arranged.eq_of_depth above' above same]

/-- Climbs that reach a node by different children turn there. -/
theorem turn_of_climbs (climb : t.Climb top start up) (climb' : t.Climb top finish down)
    (apart : ∀ c, up.getLast? = some c → down.getLast? ≠ some c) : t.Turn top start finish := by
  refine ⟨climb.above, climb'.above, ?_⟩
  intro other above above'
  rcases above.total climb.above with higher | lower
  · exact arranged.depth_le_of_above higher
  · rcases lower.eq_or_child with rfl | ⟨c, child, under⟩
    · exact Nat.le_refl _
    · have last := arranged.getLast?_of_child climb child (under.trans above)
      exact (apart c last (arranged.getLast?_of_child climb' child (under.trans above'))).elim

theorem width?_fork_of_climb (turn : t.Turn top start finish) (climb : t.Climb top start up)
    (climb' : t.Climb top finish down) {width : Nat} :
    (t.fork start finish).width? t = some width ↔
      ∃ a b, up.getLast? = some a ∧ down.getLast? = some b ∧ gap (t.rank a) (t.rank b) = width := by
  rw [arranged.fork_of_turn turn climb climb', Fork.width?]
  dsimp only
  by_cases flat : up = [] ∨ down = []
  · rw [if_neg (by rcases flat with rfl | rfl <;> simp)]
    rcases flat with rfl | rfl <;> simp
  · obtain ⟨bent, bent'⟩ := not_or.mp flat
    have longer := List.length_pos_iff.mpr bent
    have longer' := List.length_pos_iff.mpr bent'
    rw [if_pos (by simp only [List.length_append]; omega), getElem?_length_sub_append bent,
      getElem?_length_sub_append bent', List.getLast?_eq_some_getLast bent,
      List.getLast?_eq_some_getLast bent']
    simp

theorem width?_fork_eq_some_iff (turn : t.Turn top start finish) {width : Nat} :
    (t.fork start finish).width? t = some width ↔ ∃ i j a b,
      (t.children top)[i]? = some a ∧ t.Above a start ∧
      (t.children top)[j]? = some b ∧ t.Above b finish ∧ gap i j = width := by
  obtain ⟨up, climb⟩ := turn.above_start.exists_climb
  obtain ⟨down, climb'⟩ := turn.above_finish.exists_climb
  rw [arranged.width?_fork_of_climb turn climb climb']
  constructor
  · rintro ⟨a, b, last, last', apart⟩
    obtain ⟨child, above⟩ := climb.getLast? last
    obtain ⟨child', above'⟩ := climb'.getLast? last'
    exact ⟨_, _, a, b, arranged.getElem?_children.mpr ⟨child, rfl⟩, above,
      arranged.getElem?_children.mpr ⟨child', rfl⟩, above', apart⟩
  · rintro ⟨i, j, a, b, listed, above, listed', above', apart⟩
    obtain ⟨child, rfl⟩ := arranged.getElem?_children.mp listed
    obtain ⟨child', rfl⟩ := arranged.getElem?_children.mp listed'
    exact ⟨a, b, arranged.getLast?_of_child climb child above,
      arranged.getLast?_of_child climb' child' above', apart⟩

end Arranged

theorem lt_gap_iff {m n width : Nat} : width < gap m n ↔ m + width < n ∨ n + width < m := by
  simp only [gap]
  omega

theorem Arranged.tooWide_iff (arranged : t.Arranged) (turn : t.Turn top start finish)
    {width : Nat} :
    t.TooWide width top start finish ↔
      ∃ w, (t.fork start finish).width? t = some w ∧ width < w := by
  constructor
  · rintro ⟨-, -, i, j, a, b, listed, above, listed', above', far⟩
    exact ⟨gap i j, (arranged.width?_fork_eq_some_iff turn).mpr
      ⟨i, j, a, b, listed, above, listed', above', rfl⟩, lt_gap_iff.mpr far⟩
  · rintro ⟨w, wide, far⟩
    obtain ⟨i, j, a, b, listed, above, listed', above', rfl⟩ :=
      (arranged.width?_fork_eq_some_iff turn).mp wide
    have strict : ∀ {k c x : Nat}, (t.children top)[k]? = some c → t.Above c x → top ≠ x := by
      intro k c x listed above
      have before := arranged.parent_lt (arranged.getElem?_children.mp listed).1
      have after := arranged.le_of_above above
      omega
    exact ⟨strict listed above, strict listed' above', i, j, a, b, listed, above, listed', above',
      lt_gap_iff.mp far⟩

/-! ### Acceptance and text -/

theorem Arranged.within_fork_iff (arranged : t.Arranged) (turn : t.Turn top start finish)
    (limits : Limits) :
    (t.fork start finish).within t limits = true ↔
      ¬ limits.length < t.depth start + t.depth finish - 2 * t.depth top ∧
        ¬ t.TooWide limits.width top start finish := by
  rw [arranged.tooWide_iff turn, ← arranged.length_fork turn, Fork.within, Bool.and_eq_true,
    decide_eq_true_eq, Nat.not_lt]
  cases (t.fork start finish).width? t <;> simp

theorem Arranged.path?_fork (arranged : t.Arranged) (turn : t.Turn top start finish)
    (climb : t.Climb top start up) (climb' : t.Climb top finish down) :
    (t.fork start finish).path? t =
      some ⟨up.map t.kind, t.kind top, down.reverse.map t.kind⟩ := by
  have reached : (up ++ t.lineage top)[up.length]? = some top := by
    rw [List.getElem?_append_right (Nat.le_refl _), Nat.sub_self, ← List.head?_eq_getElem?]
    exact arranged.head?_lineage
  rw [arranged.fork_of_turn turn climb climb', Fork.path?]
  simp only [List.length_append, Nat.add_sub_cancel, reached, Option.map_some, List.take_left']

theorem Arranged.path?_of_turn (arranged : t.Arranged) (turn : t.Turn top start finish)
    (climb : t.Climb top start up) (climb' : t.Climb top finish down) (limits : Limits) :
    (t.Refused limits top start finish → t.path? limits start finish = none) ∧
      (¬ t.Refused limits top start finish → t.path? limits start finish =
        some ⟨up.map t.kind, t.kind top, down.reverse.map t.kind⟩) := by
  have accepted := arranged.within_fork_iff turn limits
  rw [← not_or] at accepted
  by_cases same : start = finish
  · have refused : t.Refused limits top start finish := Or.inl same
    rw [path?, if_pos same]
    exact ⟨fun _ => rfl, fun accepted => (accepted refused).elim⟩
  · by_cases exceeded : limits.length < t.depth start + t.depth finish - 2 * t.depth top ∨
        t.TooWide limits.width top start finish
    · have refused : t.Refused limits top start finish := Or.inr exceeded
      have outside : (t.fork start finish).within t limits = false := by
        simpa [exceeded] using accepted
      simp [path?, outside, refused]
    · have refused : ¬ t.Refused limits top start finish := not_or.mpr ⟨same, exceeded⟩
      rw [path?, if_neg same, if_pos (accepted.mpr exceeded), arranged.path?_fork turn climb climb']
      simp [refused]

/-- The path between two nodes of a tree that was made node by node turns at the deepest node
that is at or above both. There is none exactly when the ends are the same or a limit is exceeded;
otherwise it names each node on the way, and finding it never leaves the lineages. -/
theorem path?_over_deepest_shared (grown : t.Grown) (limits : Limits) (hs : start < t.size)
    (hf : finish < t.size) :
    ∃ top up down,
      (t.Turn top start finish ∧ ∀ other, t.Turn other start finish → other = top) ∧
      t.Climb top start up ∧ t.Climb top finish down ∧
      (t.path? limits start finish = none ↔ t.Refused limits top start finish) ∧
      (¬ t.Refused limits top start finish → (t.path? limits start finish).map Path.text =
        some (String.join (up.map fun x => "(" ++ t.kind x ++ ")" ++ "^") ++
          ("(" ++ t.kind top ++ ")") ++
          String.join (down.reverse.map fun x => "_" ++ ("(" ++ t.kind x ++ ")")))) ∧
      2 * t.depth top ≤ t.depth start + t.depth finish ∧
      (t.fork start finish).InRange := by
  have arranged := grown.arranged
  obtain ⟨top, turn⟩ := arranged.exists_turn hs hf
  obtain ⟨up, climb⟩ := turn.above_start.exists_climb
  obtain ⟨down, climb'⟩ := turn.above_finish.exists_climb
  obtain ⟨none_of, some_of⟩ := arranged.path?_of_turn turn climb climb' limits
  refine ⟨top, up, down, ⟨turn, fun _ other => arranged.turn_unique turn other⟩, climb, climb',
    ⟨?_, none_of⟩, ?_, ?_, arranged.inRange_fork turn⟩
  · intro absent
    apply Classical.byContradiction
    intro accepted
    rw [some_of accepted] at absent
    cases absent
  · intro accepted
    rw [some_of accepted, Option.map_some, Path.text, List.map_map, List.map_map]
    rfl
  · have shallower := arranged.depth_le_of_above turn.above_start
    have shallower' := arranged.depth_le_of_above turn.above_finish
    omega

def assignmentTree : Ast :=
  ((((new "module" none).push 0 "expression_statement" none).push 1 "assignment" none).push 2
    "identifier" (some "x")).push 2 "integer" (some "1")

theorem grown_assignmentTree : assignmentTree.Grown :=
  .push (.push (.push (.push (.new _ _) (by decide) _ _) (by decide) _ _) (by decide) _ _)
    (by decide) _ _

theorem path?_over_deepest_shared_in_assignment :
    assignmentTree.Grown ∧ 3 < assignmentTree.size ∧ 4 < assignmentTree.size ∧
      ∃ top, assignmentTree.Turn top 3 4 ∧ ¬ assignmentTree.Refused ⟨2, 1⟩ top 3 4 := by
  have found : assignmentTree.path? ⟨2, 1⟩ 3 4 = some ⟨["identifier"], "assignment", ["integer"]⟩ := by
    cbv
  obtain ⟨top, up, down, ⟨turn, -⟩, -, -, refused, -⟩ :=
    path?_over_deepest_shared grown_assignmentTree ⟨2, 1⟩ (by decide : 3 < assignmentTree.size)
      (by decide : 4 < assignmentTree.size)
  refine ⟨grown_assignmentTree, by decide, by decide, top, turn, fun h => ?_⟩
  rw [refused.mpr h] at found
  cases found

end Ast
end LeafPaths
