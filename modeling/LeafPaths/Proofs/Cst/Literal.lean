import Mathlib.Data.List.Forall2
import LeafPaths.Cst.Value
import LeafPaths.Proofs.Cst.Nodes

/-!
String literals in a concrete tree. The text of a literal stands in pieces, the contents of a
quoted literal and of each part of adjacent ones; expressions in it stand under interpolations, and
the literals among them are not pieces of it.
-/

namespace LeafPaths.Cst

def literalKinds : List String := ["string", "string_content", "concatenated_string"]

/-- An expression in a literal; a bare token of that name is none. -/
def isInterpolation (t : Cst) : Bool := t.named && t.kind == "interpolation"

mutual

/-- The nodes below a node, without those under an interpolation below it, each with its parent. -/
def links : Cst → List (Cst × Cst)
  | node info children => linksAmong (node info children) children

def linksAmong (parent : Cst) : List Cst → List (Cst × Cst)
  | [] => []
  | c :: later => (parent, c) :: (if c.isInterpolation then [] else c.links) ++ linksAmong parent later

end

def pieces (t : Cst) : List Cst :=
  (t.links.filter fun link => link.2.kind = "string_content").map (·.2)

/-- The quoted literals that make up the literal. -/
def parts (t : Cst) : List Cst :=
  if t.kind = "concatenated_string" then t.children.filter (·.kind = "string") else [t]

/-- Of literal kinds the literal has, outside of its interpolations, only parts and contents of a
quoted literal. No node below the literal equals it, so the parent of a part is the literal. -/
def Parted (t : Cst) : Prop :=
  ∀ parent n, (parent, n) ∈ t.links → n.kind ∈ literalKinds → n.kept = true ∧
    (n.kind = "string_content" ∧ parent.kind = "string" ∨
      n.kind = "string" ∧ parent = t ∧ t.kind = "concatenated_string")

/-- Of literal kinds only contents of quoted literals stand below the node. -/
def Filled (t : Cst) : Prop :=
  ∀ parent n, (parent, n) ∈ t.links → n.kind ∈ literalKinds →
    n.kept = true ∧ n.kind = "string_content" ∧ parent.kind = "string"

def Silent (t : Cst) : Prop := ∀ parent n, (parent, n) ∈ t.links → n.kind ∉ literalKinds

variable {t n c parent : Cst}

theorem linksAmong_eq (parent : Cst) (children : List Cst) :
    linksAmong parent children =
      children.flatMap fun c => (parent, c) :: if c.isInterpolation then [] else c.links := by
  induction children with
  | nil => rfl
  | cons c later ih => rw [linksAmong, ih, List.flatMap_cons]

theorem links_eq (t : Cst) :
    t.links = t.children.flatMap fun c => (t, c) :: if c.isInterpolation then [] else c.links := by
  cases t with
  | node info children => rw [links, linksAmong_eq, children_node]

theorem mem_links_iff : (parent, n) ∈ t.links ↔
    ∃ c ∈ t.children, parent = t ∧ n = c ∨ ¬ c.isInterpolation ∧ (parent, n) ∈ c.links := by
  rw [links_eq, List.mem_flatMap]
  apply exists_congr
  intro c
  apply and_congr_right
  intro _
  rw [List.mem_cons, Prod.mk.injEq]
  split <;> simp [*]

theorem link_of_child (child : c ∈ t.children) : (t, c) ∈ t.links :=
  mem_links_iff.mpr ⟨c, child, Or.inl ⟨rfl, rfl⟩⟩

theorem link_of_below (child : c ∈ t.children) (plain : ¬ c.isInterpolation)
    (link : (parent, n) ∈ c.links) : (parent, n) ∈ t.links :=
  mem_links_iff.mpr ⟨c, child, Or.inr ⟨plain, link⟩⟩

theorem size_le_of_link (link : (parent, n) ∈ t.links) : parent.size ≤ t.size := by
  induction t using induction_on_children with
  | step t ih =>
    obtain ⟨c, child, ⟨rfl, -⟩ | ⟨-, link⟩⟩ := mem_links_iff.mp link
    · exact Nat.le_refl _
    · exact Nat.le_trans (ih c child link) (Nat.le_of_lt (size_lt_of_mem_children child))

/-- A parent below a node has itself a parent there. -/
theorem eq_or_link_of_link (link : (parent, n) ∈ t.links) :
    parent = t ∨ ∃ above, (above, parent) ∈ t.links := by
  induction t using induction_on_children with
  | step t ih =>
    obtain ⟨c, child, ⟨same, -⟩ | ⟨plain, link⟩⟩ := mem_links_iff.mp link
    · exact Or.inl same
    · right
      rcases ih c child link with rfl | ⟨above, link⟩
      · exact ⟨t, link_of_child child⟩
      · exact ⟨above, link_of_below child plain link⟩

theorem contains_of_link (link : (parent, n) ∈ t.links) : t.Contains n := by
  induction t using induction_on_children with
  | step t ih =>
    obtain ⟨c, child, ⟨-, rfl⟩ | ⟨-, link⟩⟩ := mem_links_iff.mp link
    · exact .step child .here
    · exact .step child (ih c child link)

theorem contains_of_mem_pieces (piece : n ∈ t.pieces) : t.Contains n := by
  obtain ⟨link, listed, rfl⟩ := List.mem_map.mp piece
  exact contains_of_link (List.mem_filter.mp listed).1

/-! ### What a literal is made of -/

theorem string_mem_literalKinds : "string" ∈ literalKinds := by decide

theorem content_mem_literalKinds : "string_content" ∈ literalKinds := by decide

theorem not_isInterpolation_of_literal (literal : t.kind ∈ literalKinds) : ¬ t.isInterpolation := by
  intro interpolation
  have kind : t.kind = "interpolation" := by
    simpa using (Bool.and_eq_true_iff.mp interpolation).2
  rw [kind] at literal
  exact absurd literal (by decide)

theorem Silent.of_child (silent : t.Silent) (child : c ∈ t.children) (plain : ¬ c.isInterpolation) :
    c.Silent :=
  fun parent n link => silent parent n (link_of_below child plain link)

theorem Filled.of_child (filled : t.Filled) (child : c ∈ t.children) (plain : ¬ c.isInterpolation) :
    c.Filled :=
  fun parent n link => filled parent n (link_of_below child plain link)

theorem Filled.content_of_child (filled : t.Filled) (child : c ∈ t.children)
    (literal : c.kind ∈ literalKinds) : c.kept = true ∧ c.kind = "string_content" := by
  obtain ⟨kept, content, -⟩ := filled t c (link_of_child child) literal
  exact ⟨kept, content⟩

/-- Contents stand in quoted literals, and below this node there is none. -/
theorem Filled.silent (filled : t.Filled) (other : t.kind ≠ "string") : t.Silent := by
  intro parent n link literal
  obtain ⟨-, -, quoted⟩ := filled parent n link literal
  rcases eq_or_link_of_link link with rfl | ⟨above, link⟩
  · exact other quoted
  · obtain ⟨-, content, -⟩ := filled above parent link (quoted ▸ string_mem_literalKinds)
    exact absurd (quoted.symm.trans content) (by decide)

theorem Filled.silent_of_child (filled : t.Filled) (child : c ∈ t.children)
    (plain : ¬ c.isInterpolation) : c.Silent := by
  apply (filled.of_child child plain).silent
  intro quoted
  have content := (filled.content_of_child child (quoted ▸ string_mem_literalKinds)).2
  exact absurd (quoted.symm.trans content) (by decide)

theorem Parted.filled (parted : t.Parted) (quoted : t.kind = "string") : t.Filled := by
  intro parent n link literal
  obtain ⟨kept, content | ⟨-, -, joined⟩⟩ := parted parent n link literal
  · exact ⟨kept, content⟩
  · exact absurd (quoted.symm.trans joined) (by decide)

theorem Parted.filled_of_child (parted : t.Parted) (child : c ∈ t.children)
    (plain : ¬ c.isInterpolation) : c.Filled := by
  intro parent n link literal
  obtain ⟨kept, content | ⟨-, same, -⟩⟩ := parted parent n (link_of_below child plain link) literal
  · exact ⟨kept, content⟩
  · have smaller := size_lt_of_mem_children child
    have below := size_le_of_link link
    rw [same] at below
    omega

theorem Filled.parted (filled : t.Filled) : t.Parted := by
  intro parent n link literal
  obtain ⟨kept, content⟩ := filled parent n link literal
  exact ⟨kept, Or.inl content⟩

theorem Parted.part_of_child (parted : t.Parted) (joined : t.kind = "concatenated_string")
    (child : c ∈ t.children) (literal : c.kind ∈ literalKinds) :
    c.kept = true ∧ c.kind = "string" := by
  obtain ⟨kept, ⟨-, quoted⟩ | ⟨part, -⟩⟩ := parted t c (link_of_child child) literal
  · exact absurd (joined.symm.trans quoted) (by decide)
  · exact ⟨kept, part⟩

/-! ### The pieces of a literal -/

theorem flatMap_ite (children : List Cst) (p : Cst → Prop) [DecidablePred p] (f : Cst → List Cst) :
    (children.flatMap fun c => if p c then f c else []) = (children.filter (p ·)).flatMap f := by
  induction children with
  | nil => rfl
  | cons c later ih =>
    rw [List.flatMap_cons, List.filter_cons, ih]
    split <;> simp [*]

theorem pieces_eq (t : Cst) :
    t.pieces = t.children.flatMap fun c =>
      (if c.kind = "string_content" then [c] else []) ++
        if c.isInterpolation then [] else c.pieces := by
  rw [pieces, links_eq, List.filter_flatMap, List.map_flatMap]
  apply List.flatMap_congr
  intro c _
  rw [List.filter_cons]
  split <;> split <;> simp_all [pieces]

theorem Silent.pieces_eq_nil (silent : t.Silent) : t.pieces = [] := by
  rw [pieces, List.map_eq_nil_iff, List.filter_eq_nil_iff]
  rintro ⟨parent, n⟩ link content
  exact silent parent n link (of_decide_eq_true content ▸ content_mem_literalKinds)

theorem Filled.pieces_eq_filter (filled : t.Filled) :
    t.pieces = t.children.filter (·.kind = "string_content") := by
  have single : ∀ cs : List Cst, cs = cs.flatMap fun c => [c] := by simp
  rw [pieces_eq, single (t.children.filter _), ← flatMap_ite]
  apply List.flatMap_congr
  intro c child
  by_cases interpolation : c.isInterpolation
  · rw [if_pos interpolation, List.append_nil]
  · rw [if_neg interpolation, (filled.silent_of_child child interpolation).pieces_eq_nil,
      List.append_nil]

theorem Parted.pieces_eq_flatMap (parted : t.Parted) (joined : t.kind = "concatenated_string") :
    t.pieces = (t.children.filter (·.kind = "string")).flatMap pieces := by
  rw [pieces_eq, ← flatMap_ite]
  apply List.flatMap_congr
  intro c child
  have no_content : c.kind ≠ "string_content" := by
    intro content
    have part := (parted.part_of_child joined child (content ▸ content_mem_literalKinds)).2
    exact absurd (content.symm.trans part) (by decide)
  rw [if_neg no_content, List.nil_append]
  by_cases quoted : c.kind = "string"
  · have literal : c.kind ∈ literalKinds := quoted ▸ string_mem_literalKinds
    rw [if_neg (not_isInterpolation_of_literal literal), if_pos quoted]
  · rw [if_neg quoted]
    split
    · rfl
    · rename_i plain
      exact ((parted.filled_of_child child plain).silent quoted).pieces_eq_nil

/-! ### The text of a literal -/

/-- An expression stands directly in a part of the literal. -/
def interrupted (t : Cst) : Bool := t.parts.any fun part => part.children.any isInterpolation

/-- Every node has a text. -/
def Readable (code : ByteArray) (t : Cst) : Prop := ∀ n, t.Contains n → (n.text? code).isSome

def textOf (code : ByteArray) (t : Cst) : String := (t.text? code).getD ""

def content (code : ByteArray) (t : Cst) : String := String.join (t.pieces.map (textOf code))

variable {code : ByteArray}

theorem Readable.of_child (readable : t.Readable code) (child : c ∈ t.children) : c.Readable code :=
  fun n contains => readable n (.step child contains)

theorem Readable.text?_eq (readable : t.Readable code) : t.text? code = some (t.textOf code) := by
  obtain ⟨text, found⟩ := Option.isSome_iff_exists.mp (readable t .here)
  rw [textOf, found, Option.getD_some]

theorem readable_of_spans {source : String}
    (spans : ∀ n, t.Contains n → ∃ text, n.Spans source text) : t.Readable source.toUTF8 := by
  intro n contains
  obtain ⟨text, spans⟩ := spans n contains
  rw [spans.text?_eq, Option.isSome_some]

theorem spans_pieces {source : String} (spans : ∀ n, t.Contains n → ∃ text, n.Spans source text) :
    List.Forall₂ (Spans source) t.pieces (t.pieces.map (textOf source.toUTF8)) := by
  rw [List.forall₂_map_right_iff, List.forall₂_same]
  intro n piece
  obtain ⟨text, spans⟩ := spans n (contains_of_mem_pieces piece)
  rw [textOf, spans.text?_eq]
  exact spans

theorem join_flatMap {α : Type} (f : α → List String) (as : List α) :
    String.join (as.flatMap f) = String.join (as.map fun a => String.join (f a)) := by
  induction as with
  | nil => rfl
  | cons a as ih => rw [List.flatMap_cons, String.join_append, List.map_cons, String.join_cons, ih]

/-- What is said of the children of one kind is all that is said, where these are kept. -/
theorem join_map_kept {part : String} (literal : part ∈ literalKinds) {f : Cst → String}
    {children : List Cst} (kept : ∀ c ∈ children, c.kind = part → c.kept = true) :
    String.join ((children.filter (·.kept)).map fun c =>
      if c.isInterpolation then "" else if c.kind = part then f c else "") =
      String.join ((children.filter (·.kind = part)).map f) := by
  induction children with
  | nil => rfl
  | cons c later ih =>
    obtain ⟨here, later_kept⟩ := List.forall_mem_cons.mp kept
    rw [List.filter_cons, List.filter_cons]
    by_cases same : c.kind = part
    · have plain : ¬ c.isInterpolation := not_isInterpolation_of_literal (same ▸ literal)
      rw [if_pos (here same), if_pos (decide_eq_true same), List.map_cons, List.map_cons,
        String.join_cons, String.join_cons, ih later_kept, if_neg plain, if_pos same]
    · rw [if_neg (mt of_decide_eq_true same), ← ih later_kept]
      split
      · rw [List.map_cons, String.join_cons, if_neg same, ite_self, String.empty_append]
      · rfl

theorem mapM_eq_some {α β : Type} {f : α → Option β} {g : α → β} {as : List α}
    (given : ∀ a ∈ as, f a = some (g a)) : as.mapM f = some (as.map g) := by
  induction as with
  | nil => rfl
  | cons a as ih =>
    rw [List.forall_mem_cons] at given
    rw [List.mapM_cons, given.1, ih given.2]
    rfl

theorem mapM_eq_none {α β : Type} {f : α → Option β} {as : List α} {a : α} (member : a ∈ as)
    (missing : f a = none) : as.mapM f = none := by
  induction as with
  | nil => cases member
  | cons b as ih =>
    rw [List.mapM_cons]
    rcases List.mem_cons.mp member with rfl | member
    · rw [missing]
      rfl
    · rw [ih member]
      cases f b <;> rfl

theorem filter_namedChildren (part : String)
    (kept : ∀ c ∈ t.children, c.kind = part → c.kept = true) :
    t.namedChildren.filter (·.kind == part) = t.children.filter (·.kind = part) := by
  rw [namedChildren, List.filter_filter]
  apply List.filter_congr
  intro c child
  by_cases same : c.kind = part
  · have named := (Bool.and_eq_true_iff.mp (kept c child same)).1
    simp [same, named, Cst.named]
  · simp [same]

theorem Filled.quoted?_eq (filled : t.Filled) (readable : t.Readable code) :
    t.quoted? code =
      if t.children.any isInterpolation then none else some (t.content code) := by
  have interpolations : t.namedChildren.any (·.kind == "interpolation") =
      t.children.any isInterpolation := by
    rw [namedChildren, List.any_filter]
    rfl
  have contents := filter_namedChildren (t := t) "string_content"
    fun c child content => (filled.content_of_child child (content ▸ content_mem_literalKinds)).1
  rw [quoted?, interpolations, contents, content, filled.pieces_eq_filter, mapM_eq_some]
  · rfl
  · intro c member
    exact (readable.of_child (List.mem_filter.mp member).1).text?_eq

theorem Parted.content_eq_join (parted : t.Parted) (joined : t.kind = "concatenated_string") :
    t.content code =
      String.join ((t.children.filter (·.kind = "string")).map (content code)) := by
  rw [content, parted.pieces_eq_flatMap joined, List.map_flatMap, join_flatMap]
  rfl

theorem parts_of_string (quoted : t.kind = "string") : t.parts = [t] := by
  rw [parts, quoted]
  rfl

theorem Parted.joined?_eq (parted : t.Parted) (joined : t.kind = "concatenated_string")
    (readable : t.Readable code) :
    t.joined? code = if t.interrupted then none else some (t.content code) := by
  have strings := filter_namedChildren (t := t) "string"
    fun c child string => (parted.part_of_child joined child (string ▸ string_mem_literalKinds)).1
  have part : ∀ c ∈ t.children.filter (·.kind = "string"), c.quoted? code =
      if c.children.any isInterpolation then none else some (c.content code) := by
    intro c member
    obtain ⟨child, string⟩ := List.mem_filter.mp member
    have literal : c.kind ∈ literalKinds := of_decide_eq_true string ▸ string_mem_literalKinds
    have filled := parted.filled_of_child child (not_isInterpolation_of_literal literal)
    exact filled.quoted?_eq (readable.of_child child)
  rw [joined?, strings, interrupted, parts, if_pos joined]
  split
  · rename_i interrupted
    obtain ⟨c, member, interpolation⟩ := List.any_eq_true.mp interrupted
    rw [mapM_eq_none member (by rw [part c member, if_pos interpolation])]
    rfl
  · rename_i whole
    rw [mapM_eq_some (g := content code), Option.map_some, parted.content_eq_join joined]
    · intro c member
      rw [part c member, if_neg]
      intro interpolation
      exact whole (List.any_eq_true.mpr ⟨c, member, interpolation⟩)

/-- A literal carries its whole text, unless expressions stand in it or there is no text. -/
theorem Parted.value?_eq {p : Place} (parted : p.here.Parted)
    (literal : p.here.kind = "string" ∨ p.here.kind = "concatenated_string")
    (readable : p.here.Readable code) :
    p.value? code =
      (if p.here.interrupted then none else some (p.here.content code)).filter (· ≠ "") := by
  rcases literal with quoted | joined
  · have rule : ValueRule.of? p.here.kind = some .quoted := by
      rw [quoted]
      rfl
    have alone : p.here.interrupted = p.here.children.any isInterpolation := by
      rw [interrupted, parts_of_string quoted, List.any_cons, List.any_nil, Bool.or_false]
    rw [Place.value?, rule, Option.bind_some, Place.applyRule?,
      (parted.filled quoted).quoted?_eq readable, alone]
  · have rule : ValueRule.of? p.here.kind = some .joined := by
      rw [joined]
      rfl
    rw [Place.value?, rule, Option.bind_some, Place.applyRule?, parted.joined?_eq joined readable]

end LeafPaths.Cst
