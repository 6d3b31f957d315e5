import LeafPaths.Proofs.Cst.Search
import LeafPaths.Snippet.Layout

/-!
What it means for a tree that its layout is accepted: no node that is reached over named nodes has
a fault of its own, and the statements of a block that are checked begin in one column.
-/

namespace LeafPaths.Cst

def statements (t : Cst) : List Cst := t.children.filter fun c => c.info.named && !c.info.extra

/-- `n` is the tree itself, or below it with nothing but named nodes on the way. -/
inductive Reaches : (t n : Cst) → Prop where
  | here {t : Cst} : Reaches t t
  | step {t c n : Cst} (child : c ∈ t.children.filter (·.info.named)) (reaches : Reaches c n) :
    Reaches t n

mutual

def reached : Cst → List Cst
  | node info children => node info children :: reachedAmong children

def reachedAmong : List Cst → List Cst
  | [] => []
  | c :: later => (if c.info.named then c.reached else []) ++ reachedAmong later

end

variable {t n c : Cst} {before : Option Cst} {children : List Cst} {column : Nat}

theorem statements_eq (t : Cst) : t.statements = t.children.filter (·.kept) := rfl

/-! ### The nodes that are reached -/

theorem reached_eq (t : Cst) :
    t.reached = t :: (t.children.filter (·.info.named)).flatMap reached := by
  have among : ∀ children : List Cst,
      reachedAmong children = (children.filter (·.info.named)).flatMap reached := by
    intro children
    induction children with
    | nil => rfl
    | cons c later ih =>
      rw [reachedAmong, ih, List.filter_cons]
      split <;> simp
  cases t with
  | node info children => rw [reached, among, children_node]

theorem mem_reached_iff : n ∈ t.reached ↔ t.Reaches n := by
  constructor
  · intro member
    induction t using induction_on_children with
    | step t ih =>
      rw [reached_eq] at member
      rcases List.mem_cons.mp member with rfl | member
      · exact .here
      · obtain ⟨c, child, below⟩ := List.mem_flatMap.mp member
        exact .step child (ih c (List.mem_filter.mp child).1 below)
  · intro reaches
    induction reaches with
    | here =>
      rw [reached_eq]
      exact List.mem_cons_self
    | step child _ ih =>
      rw [reached_eq]
      exact List.mem_cons_of_mem _ (List.mem_flatMap.mpr ⟨_, child, ih⟩)

theorem checkLayout?_eq_findSome? (t : Cst) :
    t.checkLayout? = t.reached.findSome? layoutFault? := by
  have step : ∀ t : Cst, True → t.reached.findSome? layoutFault? =
      t.layoutFault?.or
        (((t.children.filter (·.named)).flatMap reached).findSome? layoutFault?) := by
    intro t _
    rw [reached_eq, List.findSome?_cons]
    cases t.layoutFault? <;> rfl
  rw [checkLayout?, search_eq_findSome? (fun _ _ _ _ => trivial) step fun _ _ => trivial,
    List.flatMap_singleton]

/-- A node that is reached in an accepted tree has no fault of its own. -/
theorem layoutFault?_of_reaches (accepted : t.checkLayout? = none) (reaches : t.Reaches n) :
    n.layoutFault? = none := by
  rw [checkLayout?_eq_findSome?, List.findSome?_eq_none_iff] at accepted
  exact accepted n (mem_reached_iff.mpr reaches)

/-! ### Columns -/

/-- The statements of some siblings that are held to a column: not those right after a `;`. -/
def lineOpeners : (before : Option Cst) → List Cst → List Cst
  | _, [] => []
  | before, c :: later =>
    if c.kept && !before.any (·.kind == ";") then c :: lineOpeners (some c) later
    else lineOpeners (some c) later

def outOf (column : Nat) (c : Cst) : Fault :=
  .on c (if column < c.info.column then .indented else .dedented)

theorem checkColumns?_some (column : Nat) (before : Option Cst) (children : List Cst) :
    checkColumns? (some column) before children =
      ((lineOpeners before children).find? fun c => c.info.column ≠ column).map (outOf column) := by
  induction children generalizing before with
  | nil => rfl
  | cons c later ih =>
    rw [checkColumns?, lineOpeners, ih]
    split
    · rw [List.find?_cons]
      rcases Nat.lt_trichotomy column c.info.column with right | same | left
      · simp [right, Nat.ne_of_gt right, outOf]
      · simp [same]
      · simp [left, Nat.ne_of_lt left, Nat.lt_asymm left, outOf]
    · rfl

/-- Without a column, the statements are held to that of the first. -/
theorem checkColumns?_none (before : Option Cst) (children : List Cst) :
    checkColumns? none before children =
      (lineOpeners before children).head?.bind fun c =>
        checkColumns? (some c.info.column) before children := by
  induction children generalizing before with
  | nil => rfl
  | cons c later ih =>
    rw [checkColumns?, lineOpeners]
    split
    next opens => simp [checkColumns?, opens]
    next shares => simp [checkColumns?, shares, ih]

theorem column_of_checkColumns? (aligned : checkColumns? (some column) before children = none)
    (member : c ∈ lineOpeners before children) : c.info.column = column := by
  rw [checkColumns?_some, Option.map_eq_none_iff, List.find?_eq_none] at aligned
  simpa using aligned c member

theorem column_of_module (isModule : n.kind = "module") (sound : n.layoutFault? = none)
    (opener : c ∈ lineOpeners none n.children) : c.info.column = 0 := by
  rw [layoutFault?, isModule, if_neg (by decide), if_neg (by decide), if_pos rfl] at sound
  exact column_of_checkColumns? sound opener

/-- The statements of a block that are checked all begin in one column. -/
theorem column_eq_of_block {d : Cst} (isBlock : n.kind = "block") (sound : n.layoutFault? = none)
    (first : c ∈ lineOpeners none n.children) (second : d ∈ lineOpeners none n.children) :
    c.info.column = d.info.column := by
  rw [layoutFault?, isBlock, if_neg (by decide), if_neg (by decide), if_neg (by decide),
    if_pos rfl] at sound
  split at sound
  · cases sound
  · rw [checkColumns?_none] at sound
    cases opener : (lineOpeners none n.children).head? with
    | none =>
      rw [List.head?_eq_none_iff.mp opener] at first
      cases first
    | some e =>
      rw [opener, Option.bind_some] at sound
      rw [column_of_checkColumns? sound first, column_of_checkColumns? sound second]

theorem mem_lineOpeners {before : Option Cst} {earlier later : List Cst} {c : Cst}
    (kept : c.kept) (unmarked : (earlier.getLast?.or before).any (·.kind == ";") = false) :
    c ∈ lineOpeners before (earlier ++ c :: later) := by
  induction earlier generalizing before with
  | nil =>
    have opens : (c.kept && !before.any (·.kind == ";")) = true := by
      rw [kept, show before.any (·.kind == ";") = false from unmarked]
      rfl
    rw [List.nil_append, lineOpeners, if_pos opens]
    exact List.mem_cons_self
  | cons first earlier ih =>
    have rest : c ∈ lineOpeners (some first) (earlier ++ c :: later) := by
      apply ih
      rw [← unmarked, List.getLast?_cons]
      cases earlier.getLast? <;> rfl
    rw [List.cons_append, lineOpeners]
    split
    · exact List.mem_cons_of_mem _ rest
    · exact rest

end LeafPaths.Cst
