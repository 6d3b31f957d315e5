import LeafPaths.Proofs.Ast.Arranged

/-!
Ancestors and depths by parent links, and the deepest ancestor that two nodes share. The lineage of
a node is the way from it up to any ancestor, followed by the lineage of that ancestor.
-/

namespace LeafPaths.Ast

/-- `a` is `x` or one of its ancestors. -/
inductive Above (t : Ast) (a : Nat) : Nat → Prop where
  | here : Above t a a
  | step {p x : Nat} (link : t.parent? x = some p) (above : Above t a p) : Above t a x

/-- The nodes from `x` up to, but without, its ancestor `top`. -/
inductive Climb (t : Ast) (top : Nat) : Nat → List Nat → Prop where
  | here : Climb t top top []
  | step {p x : Nat} {xs : List Nat} (link : t.parent? x = some p) (rest : Climb t top p xs) :
      Climb t top x (x :: xs)

def depth (t : Ast) (id : Nat) : Nat :=
  match t.parent? id with
  | some parent => if parent < id then depth t parent + 1 else 0
  | none => 0
termination_by id

/-- `top` is the deepest node at or above both `start` and `finish`. -/
structure Turn (t : Ast) (top start finish : Nat) : Prop where
  above_start : t.Above top start
  above_finish : t.Above top finish
  deepest : ∀ other, t.Above other start → t.Above other finish → t.depth other ≤ t.depth top

variable {t : Ast} {a b x y p top start finish : Nat} {xs up down : List Nat}

theorem Above.trans (h : t.Above a b) (h' : t.Above b x) : t.Above a x := by
  induction h' with
  | here => exact h
  | step link _ ih => exact .step link ih

theorem Above.exists_climb (h : t.Above a x) : ∃ xs, t.Climb a x xs := by
  induction h with
  | here => exact ⟨[], .here⟩
  | step link _ ih =>
    obtain ⟨xs, climb⟩ := ih
    exact ⟨_, .step link climb⟩

theorem Climb.above (h : t.Climb top x xs) : t.Above top x := by
  induction h with
  | here => exact .here
  | step link _ ih => exact .step link ih

/-- Parent links lead one way only, so of two ancestors one is above the other. -/
theorem Above.total (h : t.Above a x) (h' : t.Above b x) : t.Above a b ∨ t.Above b a := by
  induction h with
  | here => exact Or.inr h'
  | step link above ih =>
    cases h' with
    | here => exact Or.inl (.step link above)
    | step link' above' =>
      obtain rfl : _ = _ := Option.some.inj (link.symm.trans link')
      exact ih above'

/-- The topmost node of a climb is a child of the node that the climb leads to. -/
theorem Climb.getLast? (h : t.Climb top x xs) {c : Nat} (last : xs.getLast? = some c) :
    t.parent? c = some top ∧ t.Above c x := by
  induction h with
  | here => cases last
  | step link rest ih =>
    cases rest with
    | here =>
      obtain rfl : _ = c := by simpa using last
      exact ⟨link, .here⟩
    | step link' rest' =>
      rw [List.getLast?_cons_cons] at last
      obtain ⟨child, above⟩ := ih last
      exact ⟨child, .step link above⟩

/-- A node above another is that node, or has a child above it. -/
theorem Above.eq_or_child (h : t.Above a x) :
    a = x ∨ ∃ c, t.parent? c = some a ∧ t.Above c x := by
  obtain ⟨xs, climb⟩ := h.exists_climb
  cases last : xs.getLast? with
  | none =>
    obtain rfl := List.getLast?_eq_none_iff.mp last
    cases climb
    exact Or.inl rfl
  | some c => exact Or.inr ⟨c, climb.getLast? last⟩

theorem Turn.symm (turn : t.Turn top start finish) : t.Turn top finish start :=
  ⟨turn.above_finish, turn.above_start, fun other above above' => turn.deepest other above' above⟩

/-! ### Lineages and depths -/

namespace Arranged

variable (arranged : t.Arranged)
include arranged

theorem lineage_of_parent (link : t.parent? x = some p) : t.lineage x = x :: t.lineage p := by
  rw [lineage, link]
  simp only [arranged.parent_lt link, if_true]

theorem depth_of_parent (link : t.parent? x = some p) : t.depth x = t.depth p + 1 := by
  rw [depth, link]
  simp only [arranged.parent_lt link, if_true]

theorem above_root (present : x < t.size) : t.Above root x := by
  induction x using Nat.strongRecOn with
  | ind x ih =>
    by_cases first : x = root
    · rw [first]
      exact .here
    · obtain ⟨p, link⟩ := arranged.exists_parent first present
      have before := arranged.parent_lt link
      exact .step link (ih p before (by omega))

theorem lineage_of_climb (climb : t.Climb top x xs) : t.lineage x = xs ++ t.lineage top := by
  induction climb with
  | here => rfl
  | step link _ ih => rw [arranged.lineage_of_parent link, ih, List.cons_append]

theorem depth_of_climb (climb : t.Climb top x xs) : t.depth x = xs.length + t.depth top := by
  induction climb with
  | here => simp
  | step link _ ih =>
    rw [arranged.depth_of_parent link, ih, List.length_cons]
    omega

theorem head?_lineage : (t.lineage x).head? = some x := by
  cases link : t.parent? x with
  | none => rw [lineage, link]; rfl
  | some p => rw [arranged.lineage_of_parent link]; rfl

theorem mem_lineage_iff : a ∈ t.lineage x ↔ t.Above a x := by
  constructor
  · intro member
    induction x using Nat.strongRecOn with
    | ind x ih =>
      cases link : t.parent? x with
      | none =>
        rw [lineage, link] at member
        rw [List.mem_singleton.mp member]
        exact .here
      | some p =>
        rw [arranged.lineage_of_parent link] at member
        rcases List.mem_cons.mp member with rfl | member
        · exact .here
        · exact .step link (ih p (arranged.parent_lt link) member)
  · intro above
    obtain ⟨xs, climb⟩ := above.exists_climb
    rw [arranged.lineage_of_climb climb]
    exact List.mem_append_right xs (List.mem_of_head? arranged.head?_lineage)

theorem le_of_above (above : t.Above a x) : a ≤ x := by
  induction above with
  | here => exact Nat.le_refl _
  | step link _ ih => exact Nat.le_of_lt (Nat.lt_of_le_of_lt ih (arranged.parent_lt link))

theorem depth_le_of_above (above : t.Above a x) : t.depth a ≤ t.depth x := by
  obtain ⟨xs, climb⟩ := above.exists_climb
  rw [arranged.depth_of_climb climb]
  omega

theorem eq_of_above_of_depth (above : t.Above a x) (same : t.depth a = t.depth x) : a = x := by
  cases above with
  | here => rfl
  | step link above =>
    have below := arranged.depth_le_of_above above
    rw [arranged.depth_of_parent link] at same
    omega

/-- A node has one ancestor at each depth. -/
theorem eq_of_depth (above : t.Above a x) (above' : t.Above b x) (same : t.depth a = t.depth b) :
    a = b := by
  rcases above.total above' with first | second
  · exact arranged.eq_of_above_of_depth first same
  · exact (arranged.eq_of_above_of_depth second same.symm).symm

/-! ### The turning point of two nodes -/

theorem turn_self (x : Nat) : t.Turn x x x :=
  ⟨.here, .here, fun _ above _ => arranged.depth_le_of_above above⟩

/-- The larger of two nodes is not above the other, so it may be exchanged for its parent. -/
theorem turn_of_parent (link : t.parent? start = some p) (larger : finish < start)
    (turn : t.Turn top p finish) : t.Turn top start finish := by
  refine ⟨.step link turn.above_start, turn.above_finish, ?_⟩
  intro other above above'
  cases above with
  | here =>
    have := arranged.le_of_above above'
    omega
  | step link' above =>
    obtain rfl : p = _ := Option.some.inj (link.symm.trans link')
    exact turn.deepest other above above'

theorem exists_turn (hs : start < t.size) (hf : finish < t.size) :
    ∃ top, t.Turn top start finish := by
  -- On the sum of the two: the larger one is replaced by its parent.
  induction total : start + finish using Nat.strongRecOn generalizing start finish with
  | ind n ih =>
    rcases Nat.lt_trichotomy start finish with larger | rfl | larger
    · obtain ⟨p, link⟩ := arranged.exists_parent (Nat.ne_of_gt (Nat.zero_lt_of_lt larger)) hf
      have before := arranged.parent_lt link
      obtain ⟨top, turn⟩ := ih (p + start) (by omega) (by omega) hs rfl
      exact ⟨top, (arranged.turn_of_parent link larger turn).symm⟩
    · exact ⟨start, arranged.turn_self start⟩
    · obtain ⟨p, link⟩ := arranged.exists_parent (Nat.ne_of_gt (Nat.zero_lt_of_lt larger)) hs
      have before := arranged.parent_lt link
      obtain ⟨top, turn⟩ := ih (p + finish) (by omega) (by omega) hf rfl
      exact ⟨top, arranged.turn_of_parent link larger turn⟩

theorem exists_climbs (hs : start < t.size) (hf : finish < t.size) :
    ∃ top up down, t.Turn top start finish ∧ t.Climb top start up ∧ t.Climb top finish down := by
  obtain ⟨top, turn⟩ := arranged.exists_turn hs hf
  obtain ⟨up, climb⟩ := turn.above_start.exists_climb
  obtain ⟨down, climb'⟩ := turn.above_finish.exists_climb
  exact ⟨top, up, down, turn, climb, climb'⟩

theorem turn_unique (turn : t.Turn top start finish) (turn' : t.Turn a start finish) : a = top :=
  arranged.eq_of_depth turn'.above_start turn.above_start
    (Nat.le_antisymm (turn.deepest a turn'.above_start turn'.above_finish)
      (turn'.deepest top turn.above_start turn.above_finish))

/-- Below a root that has a single child no path turns at the root. -/
theorem top_ne_root {c : Nat} (single : t.children root = [c]) (hs : start ≠ root)
    (hf : finish ≠ root) (turn : t.Turn top start finish) : top ≠ root := by
  have only : ∀ {x}, t.Above root x → x ≠ root → t.Above c x ∧ t.parent? c = some root := by
    intro x above other
    obtain rfl | ⟨d, link, above⟩ := above.eq_or_child
    · exact (other rfl).elim
    · have member := arranged.mem_children_iff.mpr link
      rw [single] at member
      obtain rfl := List.mem_singleton.mp member
      exact ⟨above, link⟩
  rintro rfl
  obtain ⟨above, link⟩ := only turn.above_start hs
  have deeper := turn.deepest c above (only turn.above_finish hf).1
  rw [arranged.depth_of_parent link] at deeper
  omega

end Arranged
end LeafPaths.Ast
