/-!
Abstract syntax trees. The nodes of a tree are numbered in the order in which they were added, so
a parent always has a smaller number than its children; `Grown` says which trees arise.
-/

namespace LeafPaths

structure Ast.Node where
  kind : String
  /-- The word or literal that the node stands for. -/
  value : Option String
  parent : Option Nat
  children : Array Nat
  /-- Position among the parent's children. -/
  rank : Nat
  deriving DecidableEq, Repr, Inhabited

structure Ast where
  nodes : Array Ast.Node
  deriving DecidableEq, Repr, Inhabited

namespace Ast

/-- An empty value is none. -/
def valueOf (value : Option String) : Option String := value.filter (· ≠ "")

/-- A tree that has only its root. -/
def new (kind : String) (value : Option String) : Ast :=
  ⟨#[{ kind, value := valueOf value, parent := none, children := #[], rank := 0 }]⟩

def root : Nat := 0

def size (t : Ast) : Nat := t.nodes.size

def node? (t : Ast) (id : Nat) : Option Node := t.nodes[id]?

def kind (t : Ast) (id : Nat) : String := ((t.node? id).map (·.kind)).getD ""

def value? (t : Ast) (id : Nat) : Option String := (t.node? id).bind (·.value)

def parent? (t : Ast) (id : Nat) : Option Nat := (t.node? id).bind (·.parent)

def children (t : Ast) (id : Nat) : List Nat := ((t.node? id).map (·.children.toList)).getD []

def rank (t : Ast) (id : Nat) : Nat := ((t.node? id).map (·.rank)).getD 0

/-- Adds a node as the last child of `parent`, a node of the tree. The new node's number is the
size that the tree had. -/
def push (t : Ast) (parent : Nat) (kind : String) (value : Option String) : Ast :=
  let id := t.size
  let rank := ((t.node? parent).map (·.children.size)).getD 0
  ⟨(t.nodes.modify parent fun n => { n with children := n.children.push id }).push
    { kind, value := valueOf value, parent := some parent, children := #[], rank }⟩

/-- `push` with its condition checked. -/
def push? (t : Ast) (parent : Nat) (kind : String) (value : Option String) : Option Ast :=
  if parent < t.size then some (t.push parent kind value) else none

/-- The trees that can be made. -/
inductive Grown : Ast → Prop
  | new (kind : String) (value : Option String) : Grown (new kind value)
  | push {t : Ast} (grown : Grown t) {parent : Nat} (present : parent < t.size)
      (kind : String) (value : Option String) : Grown (t.push parent kind value)

/-- The node and its ancestors, up to the root. -/
def lineage (t : Ast) (id : Nat) : List Nat :=
  match t.parent? id with
  | some parent => if parent < id then id :: lineage t parent else [id]
  | none => [id]
termination_by id

theorem size_new (kind : String) (value : Option String) : (new kind value).size = 1 := rfl

theorem size_push (t : Ast) (parent : Nat) (kind : String) (value : Option String) :
    (t.push parent kind value).size = t.size + 1 := by
  simp [push, size]

theorem Grown.size_pos {t : Ast} (h : Grown t) : 0 < t.size := by
  cases h with
  | new => simp [size_new]
  | push => simp [size_push]

end Ast
end LeafPaths
