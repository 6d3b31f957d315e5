import LeafPaths.Proofs.Ast.Route

/-!
The text of a path is read back as the path. Its marks say nothing by themselves: a kind may hold
`_`, and nothing tells where the way up ends. But every kind ends in a closing parenthesis, and
right behind it stands `^` on the way up, `_` from the turning point on.
-/

namespace LeafPaths

namespace Path

/-! ### Reading -/

/-- The kinds on the way down, one in each piece of the text. Nothing follows the last one. -/
def readDown? : List (List Char) → Option (List String)
  | [[]] => some []
  | ('_' :: '(' :: kind) :: pieces => (readDown? pieces).map (String.ofList kind :: ·)
  | _ => none

/-- The path that begins with the given kind, which is on the way up if `^` comes next. -/
def readFrom? (kind : List Char) : List (List Char) → Option Path
  | ('^' :: '(' :: next) :: pieces =>
    (readFrom? next pieces).map fun p => { p with up := String.ofList kind :: p.up }
  | pieces => (readDown? pieces).map fun down => ⟨[], String.ofList kind, down⟩

/-- The path that a text spells, in pieces that end in a closing parenthesis each. -/
def ofText? (s : String) : Option Path :=
  match s.toList.splitOn ')' with
  | ('(' :: kind) :: pieces => readFrom? kind pieces
  | _ => none

/-- No kind on the way holds a closing parenthesis. -/
def Clear (p : Path) : Prop := ∀ kind ∈ p.up ++ p.top :: p.down, ')' ∉ kind.toList

/-! ### Pieces of the text -/

variable {kind top : String} {up down : List String}

def descent (down : List String) : List Char :=
  down.flatMap fun kind => '_' :: '(' :: (kind.toList ++ [')'])

theorem toList_text_nil :
    (Path.mk [] top down).text.toList = '(' :: (top.toList ++ ')' :: descent down) := by
  simp [text, segment, descent, String.toList_join, List.flatMap_map]

theorem toList_text_cons :
    (Path.mk (kind :: up) top down).text.toList =
      '(' :: (kind.toList ++ ')' :: '^' :: (Path.mk up top down).text.toList) := by
  simp [text, segment, String.toList_join]

theorem splitOn_segment (marks rest : List Char) (plain : ')' ∉ marks) (clear : ')' ∉ kind.toList) :
    (marks ++ (kind.toList ++ ')' :: rest)).splitOn ')' =
      (marks ++ kind.toList) :: rest.splitOn ')' := by
  rw [← List.append_assoc]
  apply List.splitOn_append_cons_self_of_not_mem
  exact List.not_mem_append plain clear

theorem splitOn_descent_cons (clear : ')' ∉ kind.toList) :
    (descent (kind :: down)).splitOn ')' =
      ('_' :: '(' :: kind.toList) :: (descent down).splitOn ')' := by
  have pieces := splitOn_segment ['_', '('] (descent down) (by decide) clear
  simpa [descent] using pieces

/-! ### What was written is read -/

theorem readDown?_descent (clear : ∀ kind ∈ down, ')' ∉ kind.toList) :
    readDown? ((descent down).splitOn ')') = some down := by
  induction down with
  | nil => rfl
  | cons kind down ih =>
    obtain ⟨first, later⟩ := List.forall_mem_cons.mp clear
    rw [splitOn_descent_cons first, readDown?, ih later, Option.map_some, String.ofList_toList]

/-- Behind the turning point there is no `^`. -/
theorem readFrom?_descent (clear : ∀ kind ∈ down, ')' ∉ kind.toList) :
    readFrom? top.toList ((descent down).splitOn ')') = some ⟨[], top, down⟩ := by
  have read := readDown?_descent clear
  have turned : readFrom? top.toList ((descent down).splitOn ')') =
      (readDown? ((descent down).splitOn ')')).map fun down =>
        ⟨[], String.ofList top.toList, down⟩ := by
    cases down with
    | nil => rfl
    | cons kind down =>
      rw [splitOn_descent_cons (clear kind List.mem_cons_self), readFrom?]
      intro next pieces shape
      cases shape
  rw [turned, read, Option.map_some, String.ofList_toList]

theorem exists_readFrom? (p : Path) (clear : p.Clear) :
    ∃ kind pieces, p.text.toList.splitOn ')' = ('(' :: kind) :: pieces ∧
      readFrom? kind pieces = some p := by
  obtain ⟨up, top, down⟩ := p
  induction up with
  | nil =>
    obtain ⟨first, later⟩ := List.forall_mem_cons.mp clear
    rw [toList_text_nil]
    exact ⟨_, _, splitOn_segment ['('] _ (by decide) first, readFrom?_descent later⟩
  | cons kind up ih =>
    obtain ⟨first, later⟩ := List.forall_mem_cons.mp clear
    obtain ⟨next, pieces, split, found⟩ := ih later
    have marked : ('^' :: (Path.mk up top down).text.toList).splitOn ')' =
        ('^' :: '(' :: next) :: pieces := by
      rw [List.splitOn_cons_eq_if_modifyHead, split]
      rfl
    refine ⟨kind.toList, ('^' :: '(' :: next) :: pieces, ?_, ?_⟩
    · rw [toList_text_cons, ← marked]
      exact splitOn_segment ['('] _ (by decide) first
    · rw [readFrom?, found, Option.map_some, String.ofList_toList]

theorem ofText?_text (p : Path) (clear : p.Clear) : ofText? p.text = some p := by
  obtain ⟨kind, pieces, split, found⟩ := exists_readFrom? p clear
  rw [ofText?, split]
  exact found

end Path

/-! ### Paths of trees -/

namespace Ast

variable {t t' : Ast} {limits limits' : Limits} {start finish start' finish' : Nat} {p : Path}

/-- No kind of the tree holds a closing parenthesis. -/
def Clear (t : Ast) : Prop := ∀ n ∈ t.nodes, ')' ∉ n.kind.toList

/-- The path names the kinds on the way over the deepest node that is at or above both ends. -/
def Passes (t : Ast) (start finish : Nat) (p : Path) : Prop :=
  ∃ top up down, t.Turn top start finish ∧ t.Climb top start up ∧ t.Climb top finish down ∧
    p = ⟨up.map t.kind, t.kind top, down.reverse.map t.kind⟩

theorem forall_kind (P : String → Prop) (all : ∀ n ∈ t.nodes, P n.kind) (empty : P "") (id : Nat) :
    P (t.kind id) := by
  rw [kind]
  cases found : t.node? id with
  | none => exact empty
  | some n => exact all n (Array.mem_of_getElem? found)

theorem Passes.forall_kind (passes : t.Passes start finish p) (P : String → Prop)
    (all : ∀ id, P (t.kind id)) : ∀ kind ∈ p.up ++ p.top :: p.down, P kind := by
  obtain ⟨top, up, down, -, -, -, rfl⟩ := passes
  intro kind member
  simp only [List.mem_append, List.mem_cons, List.mem_map] at member
  rcases member with ⟨id, -, rfl⟩ | rfl | ⟨id, -, rfl⟩ <;> exact all _

theorem Clear.of_passes (clear : t.Clear) (passes : t.Passes start finish p) : p.Clear :=
  passes.forall_kind (')' ∉ ·.toList) (Ast.forall_kind (')' ∉ ·.toList) clear (by simp))

theorem Arranged.passes_of_path? (arranged : t.Arranged) (hs : start < t.size)
    (hf : finish < t.size) (found : t.path? limits start finish = some p) :
    t.Passes start finish p := by
  obtain ⟨top, up, down, turn, climb, climb'⟩ := arranged.exists_climbs hs hf
  obtain ⟨none_of, some_of⟩ := arranged.path?_of_turn turn climb climb' limits
  refine ⟨top, up, down, turn, climb, climb', ?_⟩
  by_cases refused : t.Refused limits top start finish
  · cases found.symm.trans (none_of refused)
  · exact Option.some.inj (found.symm.trans (some_of refused))

/-- The text of the path of an accepted pair is read back as the kinds on its way. So two pairs of
the same text have the same kinds on the way up, at the turning point and on the way down. -/
theorem passes_of_text (grown : t.Grown) (grown' : t'.Grown) (clear : t.Clear) (clear' : t'.Clear)
    (hs : start < t.size) (hf : finish < t.size) (hs' : start' < t'.size) (hf' : finish' < t'.size)
    {text : String} (found : (t.path? limits start finish).map Path.text = some text)
    (found' : (t'.path? limits' start' finish').map Path.text = some text) :
    ∃ p, Path.ofText? text = some p ∧ t.Passes start finish p ∧ t'.Passes start' finish' p := by
  obtain ⟨p, accepted, rfl⟩ := Option.map_eq_some_iff.mp found
  obtain ⟨q, accepted', same⟩ := Option.map_eq_some_iff.mp found'
  have passes := grown.arranged.passes_of_path? hs hf accepted
  have passes' := grown'.arranged.passes_of_path? hs' hf' accepted'
  have read := Path.ofText?_text p (clear.of_passes passes)
  have read' := Path.ofText?_text q (clear'.of_passes passes')
  rw [same, read] at read'
  obtain rfl := Option.some.inj read'
  exact ⟨p, read, passes, passes'⟩

def listTree : Ast := ((new "list_" none).push 0 "_name" (some "a")).push 0 "_name" (some "b")

def nestedListTree : Ast :=
  ((((new "block" none).push 0 "list_" none).push 1 "_name" (some "x")).push 1 "gap" none).push 1
    "_name" (some "y")

theorem passes_of_text_of_lists :
    listTree.Grown ∧ nestedListTree.Grown ∧ listTree.Clear ∧ nestedListTree.Clear ∧
      (listTree.path? ⟨2, 1⟩ 1 2).map Path.text = some "(_name)^(list_)_(_name)" ∧
      (nestedListTree.path? ⟨8, 2⟩ 2 4).map Path.text = some "(_name)^(list_)_(_name)" ∧
      ∃ p, Path.ofText? "(_name)^(list_)_(_name)" = some p ∧ listTree.Passes 1 2 p ∧
        nestedListTree.Passes 2 4 p := by
  have grown : listTree.Grown := .push (.push (.new _ _) (by decide) _ _) (by decide) _ _
  have grown' : nestedListTree.Grown :=
    .push (.push (.push (.push (.new _ _) (by decide) _ _) (by decide) _ _) (by decide) _ _)
      (by decide) _ _
  have clear : listTree.Clear := by unfold Clear; decide +kernel
  have clear' : nestedListTree.Clear := by unfold Clear; decide +kernel
  have found : (listTree.path? ⟨2, 1⟩ 1 2).map Path.text = some "(_name)^(list_)_(_name)" := by
    decide +kernel
  have found' : (nestedListTree.path? ⟨8, 2⟩ 2 4).map Path.text =
      some "(_name)^(list_)_(_name)" := by
    decide +kernel
  exact ⟨grown, grown', clear, clear', found, found',
    passes_of_text grown grown' clear clear' (by decide) (by decide) (by decide) (by decide) found
      found'⟩

end Ast
end LeafPaths
