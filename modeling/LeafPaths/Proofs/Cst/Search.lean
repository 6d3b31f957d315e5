import LeafPaths.Cst.Search

/-!
What a search with a stack comes to. It sees what going through a list of nodes sees, for any way
to list the nodes below a node by recursion that leaves out no more than the search.
-/

namespace LeafPaths.Cst

/-- `n` is the tree itself, or below it. -/
inductive Contains : (t n : Cst) → Prop where
  | here {t : Cst} : Contains t t
  | step {t c n : Cst} (child : c ∈ t.children) (contains : Contains c n) : Contains t n

theorem Contains.trans {t n m : Cst} (first : t.Contains n) (second : n.Contains m) :
    t.Contains m := by
  induction first with
  | here => exact second
  | step child _ ih => exact .step child (ih second)

theorem size_lt_of_mem_children {t c : Cst} (child : c ∈ t.children) : c.size < t.size := by
  have among : ∀ {children : List Cst}, c ∈ children → c.size ≤ sizeAll children := by
    intro children member
    induction children with
    | nil => cases member
    | cons d later ih =>
      rw [sizeAll]
      rcases List.mem_cons.mp member with rfl | member
      · exact Nat.le_add_right _ _
      · exact Nat.le_trans (ih member) (Nat.le_add_left _ _)
  cases t with
  | node info children => exact Nat.lt_succ_of_le (among child)

theorem induction_on_children {P : Cst → Prop} (step : ∀ t : Cst, (∀ c ∈ t.children, P c) → P t)
    (t : Cst) : P t := by
  induction bound : t.size using Nat.strongRecOn generalizing t with
  | ind n ih =>
    apply step
    intro c child
    have smaller := size_lt_of_mem_children child
    exact ih c.size (by omega) c rfl

variable {α : Type} {look : Cst → Option α} {enters : Cst → Bool} {stack : List Cst} {x : α}

/-! ### The search -/

/-- `P` is a property of the trees on the stack that goes down to children. -/
theorem search_eq_findSome? {P : Cst → Prop} {listed : Cst → List Cst}
    (down : ∀ t, P t → ∀ c ∈ t.children, P c)
    (step : ∀ t, P t → (listed t).findSome? look =
      (look t).or (((t.children.filter enters).flatMap listed).findSome? look))
    (all : ∀ t ∈ stack, P t) :
    search look enters stack = (stack.flatMap listed).findSome? look := by
  fun_induction search look enters stack with
  | case1 => rfl
  | case2 t stack x seen =>
    rw [List.flatMap_cons, List.findSome?_append, step t (all t List.mem_cons_self), seen]
    rfl
  | case3 t stack unseen ih =>
    obtain ⟨here, later⟩ := List.forall_mem_cons.mp all
    have below : ∀ c ∈ t.children.filter enters ++ stack, P c := by
      intro c member
      rcases List.mem_append.mp member with member | member
      · exact down t here c (List.mem_filter.mp member).1
      · exact later c member
    rw [ih below, List.flatMap_append, List.flatMap_cons, List.findSome?_append,
      List.findSome?_append, step t here, unseen, Option.none_or]

theorem exists_of_search (found : search look enters stack = some x) :
    ∃ t ∈ stack, ∃ n, t.Contains n ∧ look n = some x := by
  fun_induction search look enters stack with
  | case1 => cases found
  | case2 t stack y seen =>
    obtain rfl := Option.some.inj found
    exact ⟨t, List.mem_cons_self, t, .here, seen⟩
  | case3 t stack unseen ih =>
    obtain ⟨c, member, n, contains, seen⟩ := ih found
    rcases List.mem_append.mp member with member | member
    · exact ⟨t, List.mem_cons_self, n, .step (List.mem_filter.mp member).1 contains, seen⟩
    · exact ⟨c, List.mem_cons_of_mem t member, n, contains, seen⟩

end LeafPaths.Cst
