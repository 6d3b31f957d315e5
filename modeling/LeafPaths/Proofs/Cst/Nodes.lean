import LeafPaths.Proofs.Cst.Search
import LeafPaths.Proofs.Text.Bytes

/-!
All nodes of a concrete tree, in pre-order, and the texts that they stand for.
-/

namespace LeafPaths.Cst

mutual

def nodes : Cst → List Cst
  | node info children => node info children :: nodesAmong children

def nodesAmong : List Cst → List Cst
  | [] => []
  | c :: later => c.nodes ++ nodesAmong later

end

/-- The bytes of the node are those of `text`, which is a part of the code. -/
def Spans (code : String) (t : Cst) (text : String) : Prop :=
  ∃ before after, code = before ++ text ++ after ∧ t.info.firstByte = before.utf8ByteSize ∧
    t.info.endByte = (before ++ text).utf8ByteSize

variable {t n : Cst} {code text : String}

theorem Spans.text?_eq (spans : t.Spans code text) : t.text? code.toUTF8 = some text := by
  obtain ⟨before, after, rfl, first, last⟩ := spans
  rw [text?, first, last, Text.fromUTF8?_extract]

theorem nodesAmong_eq (children : List Cst) : nodesAmong children = children.flatMap nodes := by
  induction children with
  | nil => rfl
  | cons c later ih => rw [nodesAmong, ih, List.flatMap_cons]

theorem nodes_eq (t : Cst) : t.nodes = t :: t.children.flatMap nodes := by
  cases t with
  | node info children => rw [nodes, nodesAmong_eq, children_node]

theorem mem_nodes_iff : n ∈ t.nodes ↔ t.Contains n := by
  constructor
  · intro member
    induction t using induction_on_children with
    | step t ih =>
      rw [nodes_eq] at member
      rcases List.mem_cons.mp member with rfl | member
      · exact .here
      · obtain ⟨c, child, below⟩ := List.mem_flatMap.mp member
        exact .step child (ih c child below)
  · intro contains
    induction contains with
    | here =>
      rw [nodes_eq]
      exact List.mem_cons_self
    | step child _ ih =>
      rw [nodes_eq]
      exact List.mem_cons_of_mem _ (List.mem_flatMap.mpr ⟨_, child, ih⟩)

end LeafPaths.Cst
