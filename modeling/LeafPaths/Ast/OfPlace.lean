import LeafPaths.Ast
import LeafPaths.Cst.Value

/-!
From concrete to abstract syntax. Of a node's children the abstract tree has those that are named
and not extra; below a node that carries a value it has nothing. Nodes are added in pre-order.
-/

namespace LeafPaths

namespace Place

/-- The places of some siblings, those in `left` being before them. -/
def siblings (parent : Cst.Info) (above : List Step) (left : List Cst) : List Cst → List Place
  | [] => []
  | c :: right =>
    ⟨c, ⟨parent, left, right⟩ :: above⟩ :: siblings parent above (c :: left) right

/-- The children that the abstract tree has. -/
def keptChildren (p : Place) : List Place :=
  (siblings p.here.info p.above [] p.here.children).filter (·.here.kept)

end Place

namespace Ast

/-- A node that is to be added under the node numbered `parent`. -/
structure Pending where
  place : Place
  parent : Nat
  deriving Repr, Inhabited

/-- What is to be added, and all that may come of it. -/
def Pending.load : List Pending → Nat
  | [] => 0
  | next :: later => next.place.here.size + load later

theorem Pending.load_append (before after : List Pending) :
    load (before ++ after) = load before + load after := by
  induction before with
  | nil => simp [load]
  | cons next before ih => simp [load, ih, Nat.add_assoc]

theorem Pending.load_kept (parent : Cst.Info) (above : List Place.Step) (left right : List Cst)
    (id : Nat) :
    load (((Place.siblings parent above left right).filter (·.here.kept)).map (⟨·, id⟩)) ≤
      Cst.sizeAll right := by
  induction right generalizing left with
  | nil => simp [Place.siblings, load]
  | cons c right ih =>
    have rest := ih (c :: left)
    rw [Place.siblings, List.filter_cons, Cst.sizeAll]
    split
    · simp only [List.map_cons, load]
      omega
    · omega

theorem Pending.load_keptChildren (p : Place) (id : Nat) :
    load (p.keptChildren.map (⟨·, id⟩)) < p.here.size := by
  obtain ⟨⟨info, children⟩, above⟩ := p
  exact Nat.lt_succ_of_le (load_kept info above [] children id)

/-- Adds what is pending, each node with all that is kept below it before the next. -/
def fill (code : ByteArray) (t : Ast) : List Pending → Ast
  | [] => t
  | ⟨place, parent⟩ :: later =>
    let id := t.size
    let value := place.value? code
    let grown := t.push parent place.here.kind value
    if value.isSome then fill code grown later
    else fill code grown (place.keptChildren.map (⟨·, id⟩) ++ later)
termination_by pending => Pending.load pending
decreasing_by
  all_goals have below := Pending.load_keptChildren place t.size
  · simp only [Pending.load]
    omega
  · simp only [Pending.load, Pending.load_append]
    omega

/-- The abstract tree of the node at `p`. -/
def ofPlace (code : ByteArray) (p : Place) : Ast :=
  let value := p.value? code
  let single := new p.here.kind value
  if value.isSome then single else fill code single (p.keptChildren.map (⟨·, root⟩))

/-- The abstract tree of a whole parse. -/
def ofCst (code : ByteArray) (t : Cst) : Ast := ofPlace code (.root t)

end Ast
end LeafPaths
