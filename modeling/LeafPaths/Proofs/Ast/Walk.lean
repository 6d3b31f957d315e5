import LeafPaths.Proofs.Ast.Ancestry
import LeafPaths.Proofs.Path

/-!
Walks over the edges of a tree. A climb from each of two nodes to one above both makes a walk
between them, and no walk is shorter than the one over their turning point.
-/

namespace LeafPaths.Ast

inductive Step where
  | up (child parent : Nat)
  | down (parent child : Nat)
  deriving DecidableEq, Repr

namespace Step

def back : Step → Step
  | up child parent => down parent child
  | down parent child => up child parent

def child : Step → Nat
  | up child _ => child
  | down _ child => child

def text (t : Ast) : Step → String
  | up _ parent => "^" ++ Path.segment (t.kind parent)
  | down _ child => "_" ++ Path.segment (t.kind child)

@[simp] theorem back_back (s : Step) : s.back.back = s := by cases s <;> rfl

end Step

inductive Walk (t : Ast) : Nat → List Step → Nat → Prop where
  | here {x : Nat} : Walk t x [] x
  | up {x y p : Nat} {steps : List Step} (link : t.parent? x = some p) (rest : Walk t p steps y) :
      Walk t x (.up x p :: steps) y
  | down {x y c : Nat} {steps : List Step} (link : t.parent? c = some x) (rest : Walk t c steps y) :
      Walk t x (.down x c :: steps) y

def retrace (steps : List Step) : List Step := (steps.map Step.back).reverse

def walkText (t : Ast) (x : Nat) (steps : List Step) : String :=
  Path.segment (t.kind x) ++ String.join (steps.map (Step.text t))

/-- The steps from the first of `xs`, each the parent of the one before, to the parent `top` of the
last. -/
def ascent (top : Nat) : List Nat → List Step
  | [] => []
  | x :: xs => .up x (xs.headD top) :: ascent top xs

/-- There is a walk of `n` steps, and none of fewer. -/
def Distance (t : Ast) (start finish n : Nat) : Prop :=
  (∃ steps, t.Walk start steps finish ∧ steps.length = n) ∧
    ∀ steps, t.Walk start steps finish → n ≤ steps.length

variable {t : Ast} {x y z top start finish : Nat} {xs up down : List Nat} {steps later : List Step}

/-! ### Walking back -/

@[simp] theorem length_retrace (steps : List Step) : (retrace steps).length = steps.length := by
  simp [retrace]

theorem retrace_cons (s : Step) (steps : List Step) :
    retrace (s :: steps) = retrace steps ++ [s.back] := by
  simp [retrace]

@[simp] theorem retrace_append (steps later : List Step) :
    retrace (steps ++ later) = retrace later ++ retrace steps := by
  simp [retrace]

@[simp] theorem retrace_retrace (steps : List Step) : retrace (retrace steps) = steps := by
  simp [retrace, Function.comp_def]

theorem Walk.append (walk : t.Walk x steps y) (walk' : t.Walk y later z) :
    t.Walk x (steps ++ later) z := by
  induction walk with
  | here => exact walk'
  | up link _ ih => exact .up link (ih walk')
  | down link _ ih => exact .down link (ih walk')

theorem Walk.retrace (walk : t.Walk x steps y) : t.Walk y (retrace steps) x := by
  induction walk with
  | here => exact .here
  | up link _ ih =>
    rw [retrace_cons]
    exact ih.append (.down link .here)
  | down link _ ih =>
    rw [retrace_cons]
    exact ih.append (.up link .here)

/-! ### Climbs -/

theorem Climb.headD (climb : t.Climb top x xs) : xs.headD top = x := by
  cases climb <;> rfl

theorem Climb.walk (climb : t.Climb top x xs) : t.Walk x (ascent top xs) top := by
  induction climb with
  | here => exact .here
  | step link rest ih =>
    rw [ascent, rest.headD]
    exact .up link ih

@[simp] theorem length_ascent (top : Nat) (xs : List Nat) : (ascent top xs).length = xs.length := by
  induction xs with
  | nil => rfl
  | cons x xs ih => simp [ascent, ih]

theorem map_child_ascent (top : Nat) (xs : List Nat) : (ascent top xs).map Step.child = xs := by
  induction xs with
  | nil => rfl
  | cons x xs ih => simp [ascent, Step.child, ih]

/-- The walk between two nodes that climb to the same one. -/
theorem Climb.walk_over (climb : t.Climb top start up) (climb' : t.Climb top finish down) :
    t.Walk start (ascent top up ++ Ast.retrace (ascent top down)) finish :=
  climb.walk.append climb'.walk.retrace

theorem Climb.walkText_ascent (climb : t.Climb top start up) :
    t.walkText start (ascent top up) =
      String.join (up.map fun x => Path.segment (t.kind x) ++ "^") ++ Path.segment (t.kind top) := by
  induction climb with
  | here => simp [walkText, ascent]
  | step link rest ih =>
    rw [walkText] at ih ⊢
    simp only [ascent, rest.headD, List.map_cons, String.join_cons, Step.text, String.append_assoc]
    rw [ih]

theorem map_text_descent (t : Ast) (top : Nat) (xs : List Nat) :
    (retrace (ascent top xs)).map (Step.text t) =
      xs.reverse.map fun x => "_" ++ Path.segment (t.kind x) := by
  have downward : ∀ step ∈ ascent top xs, (Step.text t ∘ Step.back) step =
      "_" ++ Path.segment (t.kind step.child) := by
    induction xs with
    | nil => simp [ascent]
    | cons x xs ih => simpa [ascent, Step.back, Step.text, Step.child] using ih
  rw [retrace, List.map_reverse, List.map_map, List.map_congr_left downward, List.map_reverse]
  conv => rhs; rw [← map_child_ascent top xs, List.map_map]
  rfl

/-- The text of a path is that of the walk over its turning point. -/
theorem Climb.walkText_eq (climb : t.Climb top start up) :
    t.walkText start (ascent top up ++ Ast.retrace (ascent top down)) =
      (Path.mk (up.map t.kind) (t.kind top) (down.reverse.map t.kind)).text := by
  have rising := climb.walkText_ascent
  rw [walkText] at rising
  rw [walkText, List.map_append, String.join_append, ← String.append_assoc, rising,
    map_text_descent, Path.text, List.map_map, List.map_map]
  rfl

/-! ### The shortest walk -/

/-- A walk passes below some node from which it is at least as far to both of its ends. -/
theorem Arranged.exists_peak (arranged : t.Arranged) (walk : t.Walk x steps y) :
    ∃ peak, t.Above peak x ∧ t.Above peak y ∧
      t.depth x + t.depth y ≤ steps.length + 2 * t.depth peak := by
  induction walk with
  | here => exact ⟨_, .here, .here, by simp; omega⟩
  | @up x y p steps link rest ih =>
    obtain ⟨peak, above, above', far⟩ := ih
    have deeper := arranged.depth_of_parent link
    refine ⟨peak, .step link above, above', ?_⟩
    simp only [List.length_cons]
    omega
  | @down x y c steps link rest ih =>
    obtain ⟨peak, above, above', far⟩ := ih
    have deeper := arranged.depth_of_parent link
    simp only [List.length_cons]
    -- The walk that begins at the peak itself has a new one at the node before.
    cases above with
    | here => exact ⟨x, .here, .trans (.step link .here) above', by omega⟩
    | step link' above =>
      obtain rfl : x = _ := Option.some.inj (link.symm.trans link')
      exact ⟨peak, above, above', by omega⟩

theorem Arranged.distance_of_turn (arranged : t.Arranged) (turn : t.Turn top start finish)
    (climb : t.Climb top start up) (climb' : t.Climb top finish down) :
    t.Distance start finish (up.length + down.length) := by
  refine ⟨⟨_, climb.walk_over climb', by simp⟩, ?_⟩
  intro steps walk
  obtain ⟨peak, above, above', far⟩ := arranged.exists_peak walk
  have higher := turn.deepest peak above above'
  have first := arranged.depth_of_climb climb
  have second := arranged.depth_of_climb climb'
  omega

end LeafPaths.Ast
