import LeafPaths.Cst

/-!
A place is a node together with its surroundings: the way up to the root, and on each level the
siblings on either side. Two equal subtrees at different places are different nodes.
-/

namespace LeafPaths

/-- One step up from a child: what is known of the parent, and the child's siblings. -/
structure Place.Step where
  parent : Cst.Info
  /-- The siblings before the child, the nearest first. -/
  left : List Cst
  /-- The siblings after the child, in order. -/
  right : List Cst
  deriving Repr, Inhabited

structure Place where
  here : Cst
  /-- The steps up to the root, the nearest first. -/
  above : List Place.Step
  deriving Repr, Inhabited

namespace Place

def root (t : Cst) : Place := ⟨t, []⟩

/-- The node is the first child that its parent has under the field `name`. -/
def isField (p : Place) (name : String) : Bool :=
  match p.above with
  | [] => false
  | step :: _ =>
    p.here.info.field == some name && step.left.all (fun sibling => sibling.info.field != some name)

end Place

mutual

/-- The places at or below a node, in pre-order. -/
def Cst.places (above : List Place.Step) : Cst → List Place
  | .node info children =>
    ⟨.node info children, above⟩ :: Cst.placesAmong info above [] children

def Cst.placesAmong (parent : Cst.Info) (above : List Place.Step) (left : List Cst) :
    List Cst → List Place
  | [] => []
  | c :: right =>
    c.places (⟨parent, left, right⟩ :: above) ++ Cst.placesAmong parent above (c :: left) right

end

end LeafPaths
