/-!
Concrete syntax trees, as an incremental parser hands them over: every node of the parse, tokens
and comments included, with its place in the text.
-/

namespace LeafPaths

/-- What the parser reports about one node, apart from its children. -/
structure Cst.Info where
  kind : String
  /-- A node of a grammar rule, as opposed to a bare token such as `=`. -/
  named : Bool
  /-- A node that the grammar allows anywhere, such as a comment. -/
  extra : Bool
  /-- A token that the parser put in to go on. -/
  missing : Bool
  /-- Text that the parser could not place. -/
  erroneous : Bool
  /-- There is an error at or below the node, not always a visible one. -/
  hasError : Bool
  firstByte : Nat
  /-- The byte after the last one. -/
  endByte : Nat
  /-- Line of the first byte, counted from 0. -/
  row : Nat
  /-- Bytes between the start of that line and the first byte. -/
  column : Nat
  /-- The name under which the parent's rule refers to the node. -/
  field : Option String
  deriving DecidableEq, Repr, Inhabited

inductive Cst where
  | node (info : Cst.Info) (children : List Cst)
  deriving Repr, Inhabited

namespace Cst

def info : Cst → Info
  | node i _ => i

def children : Cst → List Cst
  | node _ cs => cs

def kind (t : Cst) : String := t.info.kind

def named (t : Cst) : Bool := t.info.named

/-- Part of the abstract syntax: neither a bare token nor a comment. -/
def kept (t : Cst) : Bool := t.info.named && !t.info.extra

def namedChildren (t : Cst) : List Cst := t.children.filter (·.named)

/-- The text of the node; `none` when its bytes are no whole characters. -/
def text? (code : ByteArray) (t : Cst) : Option String :=
  String.fromUTF8? (code.extract t.info.firstByte t.info.endByte)

mutual

def size : Cst → Nat
  | node _ children => sizeAll children + 1

def sizeAll : List Cst → Nat
  | [] => 0
  | c :: later => c.size + sizeAll later

end

@[simp] theorem info_node (i : Info) (cs : List Cst) : (node i cs).info = i := rfl

@[simp] theorem children_node (i : Info) (cs : List Cst) : (node i cs).children = cs := rfl

end Cst
end LeafPaths
