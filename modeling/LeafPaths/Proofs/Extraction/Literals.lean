import LeafPaths.Proofs.Ast.Trivia
import LeafPaths.Proofs.Cst.Literal
import LeafPaths.Proofs.Extraction.Subtree

/-!
A string literal keeps its text. Where it is one leaf, that leaf carries all of the text; where it
is not, the leaves of its parts and contents carry it, piece by piece, and the expressions in it
are built beside them.
-/

namespace LeafPaths

namespace Place

def parts (p : Place) : List Place :=
  if p.here.kind = "concatenated_string" then p.keptChildren.filter (·.here.kind = "string") else [p]

/-- No part is left out. -/
theorem map_here_parts {p : Place} (parted : p.here.Parted) :
    p.parts.map (·.here) = p.here.parts := by
  rw [parts, Cst.parts]
  split
  · rename_i joined
    have strings : (p.keptChildren.filter (·.here.kind = "string")).map (·.here) =
        (p.keptChildren.map (·.here)).filter (·.kind = "string") := by
      rw [List.filter_map]
      rfl
    rw [strings, map_here_keptChildren, List.filter_filter]
    apply List.filter_congr
    intro c child
    by_cases quoted : c.kind = "string"
    · have kept := (parted.part_of_child joined child (quoted ▸ Cst.string_mem_literalKinds)).1
      rw [kept, Bool.and_true]
    · rw [decide_eq_false quoted, Bool.false_and]
  · rfl

/-- Below a node without a value all is built that is kept. -/
theorem mem_outline_of_child {code : ByteArray} {p q c : Place}
    (kept : q ∈ (p.outline code).preorder) (valueless : q.value? code = none)
    (child : c ∈ q.keptChildren) : c ∈ (p.outline code).preorder := by
  induction p using induction_on_keptChildren with
  | step p ih =>
    rw [preorder_outline_eq, List.mem_cons] at kept ⊢
    right
    rcases kept with rfl | kept
    · rw [valueless]
      refine List.mem_flatMap.mpr ⟨c, child, ?_⟩
      rw [preorder_outline_eq]
      exact List.mem_cons_self
    · split at kept
      · cases kept
      · rename_i bare
        rw [if_neg bare]
        obtain ⟨d, inside, below⟩ := List.mem_flatMap.mp kept
        exact List.mem_flatMap.mpr ⟨d, inside, ih d inside below⟩

end Place

namespace Ast

/-- The way from `top` down to the node passes no interpolation below `top`. -/
def unbroken (t : Ast) (top id : Nat) : Bool :=
  (t.lineage id).all fun a => a ≤ top || t.kind a != "interpolation"

/-- The leaves at or below `top` that come from a literal or a part of one, but from none in an
interpolation below `top`. -/
def literalLeaves (t : Ast) (top : Nat) : List Nat :=
  (List.range t.size).filter fun id =>
    ((t.value? id).isSome && t.kind id ∈ Cst.literalKinds) && (t.unbroken top id && top ∈ t.lineage id)

def said (t : Ast) (id : Nat) : String :=
  if t.kind id ∈ Cst.literalKinds then (t.value? id).getD "" else ""

/-- What is said at and below a node, without what is under interpolations below it. -/
def speech (t : Ast) (top : Nat) : String :=
  String.join (((t.preorder top).filter (t.unbroken top)).map t.said)

variable {t : Ast} {top x c : Nat}

theorem join_filterMap_value? (t : Ast) (ids : List Nat) :
    String.join ((ids.filter fun id =>
      (t.value? id).isSome && t.kind id ∈ Cst.literalKinds).filterMap t.value?) =
      String.join (ids.map t.said) := by
  induction ids with
  | nil => rfl
  | cons id ids ih =>
    rw [List.map_cons, String.join_cons, ← ih, List.filter_cons, said]
    cases valued : t.value? id with
    | none => simp
    | some v =>
      split <;> simp_all

namespace Arranged

variable (arranged : t.Arranged)
include arranged

theorem unbroken_self (x : Nat) : t.unbroken x x = true := by
  rw [unbroken, List.all_eq_true]
  intro a member
  have above := arranged.le_of_above (arranged.mem_lineage_iff.mp member)
  simp [above]

/-- Below a child the way from its parent is the way from the child, if this is passed itself. -/
theorem unbroken_of_child (child : c ∈ t.children top) (below : t.Above c x) :
    t.unbroken top x = (t.kind c != "interpolation" && t.unbroken c x) := by
  have smaller := (arranged.lt_of_mem_children child).1
  have link := arranged.mem_children_iff.mp child
  rw [Bool.eq_iff_iff, Bool.and_eq_true, unbroken, unbroken, List.all_eq_true, List.all_eq_true]
  constructor
  · intro free
    refine ⟨?_, ?_⟩
    · have passed := free c (arranged.mem_lineage_iff.mpr below)
      simpa [Nat.not_le_of_lt smaller] using passed
    · intro a member
      have passed := free a member
      rw [Bool.or_eq_true, decide_eq_true_eq] at passed ⊢
      exact passed.imp_left fun le => Nat.le_trans le (Nat.le_of_lt smaller)
  · rintro ⟨kind, free⟩ a member
    have passed := free a member
    rw [Bool.or_eq_true, decide_eq_true_eq] at passed ⊢
    rcases passed with le | other
    · -- No node is between a parent and its child.
      rcases (arranged.mem_lineage_iff.mp member).total below with above | above
      · cases above with
        | here => exact Or.inr kind
        | step link' above =>
          obtain rfl : _ = top := Option.some.inj (link'.symm.trans link)
          exact Or.inl (arranged.le_of_above above)
      · obtain rfl := Nat.le_antisymm le (arranged.le_of_above above)
        exact Or.inr kind
    · exact Or.inr other

theorem speech_eq (top : Nat) :
    t.speech top = t.said top ++ String.join ((t.children top).map fun c =>
      if t.kind c = "interpolation" then "" else t.speech c) := by
  have below : ((t.children top).flatMap t.preorder).filter (t.unbroken top) =
      (t.children top).flatMap fun c =>
        if t.kind c = "interpolation" then [] else (t.preorder c).filter (t.unbroken c) := by
    rw [List.filter_flatMap]
    apply List.flatMap_congr
    intro c child
    have passed : ∀ x ∈ t.preorder c, t.unbroken top x = (t.kind c != "interpolation" && t.unbroken c x) :=
      fun x member => arranged.unbroken_of_child child (arranged.mem_preorder_iff.mp member)
    rw [List.filter_congr passed]
    by_cases interpolation : t.kind c = "interpolation"
    · simp [interpolation]
    · simp only [if_neg interpolation, bne_iff_ne.mpr interpolation, Bool.true_and]
  rw [speech, arranged.preorder_eq, List.filter_cons, if_pos (arranged.unbroken_self top), below,
    List.map_cons, String.join_cons, List.map_flatMap, Cst.join_flatMap]
  congr 2
  apply List.map_congr_left
  intro c _
  split
  · rfl
  · rw [speech]

end Arranged

variable {code : ByteArray} {p q : Place} {id : Nat}

namespace LiesAt

/-! ### What is said of a literal -/

/-- A content says its text, also where this is empty. -/
theorem said_of_content (lies : LiesAt code t p id) (content : p.here.kind = "string_content")
    (readable : p.here.Readable code) : t.said id = p.here.textOf code := by
  have rule : ValueRule.of? p.here.kind = some .text := by
    rw [content]
    rfl
  rw [said, lies.kind_eq, if_pos (content ▸ Cst.content_mem_literalKinds), lies.value?_eq,
    Place.value?, rule, Option.bind_some, Place.applyRule?, readable.text?_eq]
  by_cases empty : p.here.textOf code = "" <;> simp [Option.filter, empty]

variable (arranged : t.Arranged)
include arranged

theorem speech_of_valued (lies : LiesAt code t p id) {v : String} (valued : p.value? code = some v) :
    t.speech id = t.said id := by
  rw [arranged.speech_eq, lies.children_of_valued (by rw [valued]; rfl), List.map_nil,
    String.join_nil, String.append_empty]

/-- A node without a value says what its children of one literal kind say, if no other child says
anything. -/
theorem speech_of_valueless (lies : LiesAt code t p id) (valueless : p.value? code = none)
    {part : String} (literal : part ∈ Cst.literalKinds)
    (kept : ∀ c ∈ p.here.children, c.kind = part → c.kept = true) {f : Cst → String}
    (each : ∀ c ∈ p.keptChildren, ¬ c.here.isInterpolation → ∀ x, LiesAt code t c x →
      t.speech x = if c.here.kind = part then f c.here else "") :
    t.speech id = String.join ((p.here.children.filter (·.kind = part)).map f) := by
  have nothing : t.said id = "" := by
    rw [said, lies.value?_eq, valueless]
    split <;> rfl
  have below : ((t.children id).map fun x => if t.kind x = "interpolation" then "" else t.speech x) =
      p.keptChildren.map fun c => if c.here.isInterpolation then ""
        else if c.here.kind = part then f c.here else "" := by
    apply Cst.map_eq_of_forall₂ (lies.forall₂_children valueless)
    intro c child x lies
    have kept := Bool.and_eq_true_iff.mp (List.mem_filter.mp child).2
    have same : c.here.isInterpolation ↔ t.kind x = "interpolation" := by
      rw [lies.kind_eq, Cst.isInterpolation, Cst.named, kept.1, Bool.true_and, beq_iff_eq]
    by_cases interpolation : c.here.isInterpolation
    · rw [if_pos interpolation, if_pos (same.mp interpolation)]
    · rw [if_neg interpolation, if_neg (mt same.mpr interpolation),
        each c child interpolation x lies]
  rw [arranged.speech_eq, nothing, String.empty_append, below, ← Cst.join_map_kept literal kept,
    ← Place.map_here_keptChildren, List.map_map]
  rfl

theorem speech_of_silent (lies : LiesAt code t p id) (silent : p.here.Silent) :
    t.speech id = t.said id := by
  induction p using Place.induction_on_keptChildren generalizing id with
  | step p ih =>
    cases valued : p.value? code with
    | some v => exact lies.speech_of_valued arranged valued
    | none =>
      have other : ∀ c ∈ p.here.children, c.kind ≠ "string" := fun c child quoted =>
        silent _ _ (Cst.link_of_child child) (quoted ▸ Cst.string_mem_literalKinds)
      have strings : p.here.children.filter (·.kind = "string") = [] :=
        List.filter_eq_nil_iff.mpr fun c child => by simpa using other c child
      have each : ∀ c ∈ p.keptChildren, ¬ c.here.isInterpolation → ∀ x, LiesAt code t c x →
          t.speech x = if c.here.kind = "string" then "" else "" := by
        intro c child plain x lies
        have inside := Place.here_mem_children child
        rw [ih c child lies (silent.of_child inside plain), said, lies.kind_eq,
          if_neg (silent _ _ (Cst.link_of_child inside)), ite_self]
      rw [lies.speech_of_valueless arranged valued Cst.string_mem_literalKinds
          (fun c child quoted => (other c child quoted).elim) (f := fun _ => "") each,
        strings, said, lies.value?_eq, valued]
      split <;> rfl

theorem speech_of_valued_literal (lies : LiesAt code t p id) (parted : p.here.Parted)
    (literal : p.here.kind = "string" ∨ p.here.kind = "concatenated_string")
    (readable : p.here.Readable code) {v : String} (valued : p.value? code = some v) :
    t.speech id = p.here.content code := by
  have listed : p.here.kind ∈ Cst.literalKinds := by
    rcases literal with kind | kind <;> rw [kind] <;> decide
  have whole : v = p.here.content code := by
    rw [parted.value?_eq literal readable] at valued
    split at valued
    · cases valued
    · exact (Option.some.inj (Option.filter_eq_some_iff.mp valued).1).symm
  rw [lies.speech_of_valued arranged valued, said, lies.kind_eq, if_pos listed, lies.value?_eq,
    valued, whole, Option.getD_some]

theorem speech_of_string (lies : LiesAt code t p id) (filled : p.here.Filled)
    (quoted : p.here.kind = "string") (readable : p.here.Readable code) :
    t.speech id = p.here.content code := by
  cases valued : p.value? code with
  | some v => exact lies.speech_of_valued_literal arranged filled.parted (Or.inl quoted) readable valued
  | none =>
    -- For want of text or for an expression in it: the contents are built, and have what text
    -- there is.
    have each : ∀ c ∈ p.keptChildren, ¬ c.here.isInterpolation → ∀ x, LiesAt code t c x →
        t.speech x = if c.here.kind = "string_content" then c.here.textOf code else "" := by
      intro c child plain x lies
      have inside := Place.here_mem_children child
      rw [lies.speech_of_silent arranged (filled.silent_of_child inside plain)]
      split
      · rename_i content
        exact lies.said_of_content content (readable.of_child inside)
      · rename_i other
        rw [said, lies.kind_eq, if_neg]
        intro literal
        exact other (filled.content_of_child inside literal).2
    rw [lies.speech_of_valueless arranged valued Cst.content_mem_literalKinds
        (fun c child content => (filled.content_of_child child
          (content ▸ Cst.content_mem_literalKinds)).1) each, Cst.content, filled.pieces_eq_filter]

theorem speech_of_literal (lies : LiesAt code t p id) (parted : p.here.Parted)
    (literal : p.here.kind = "string" ∨ p.here.kind = "concatenated_string")
    (readable : p.here.Readable code) : t.speech id = p.here.content code := by
  rcases literal with quoted | joined
  · exact lies.speech_of_string arranged (parted.filled quoted) quoted readable
  cases valued : p.value? code with
  | some v => exact lies.speech_of_valued_literal arranged parted (Or.inr joined) readable valued
  | none =>
    -- Each part decides anew whether it is one leaf, and has all of its text either way.
    have each : ∀ c ∈ p.keptChildren, ¬ c.here.isInterpolation → ∀ x, LiesAt code t c x →
        t.speech x = if c.here.kind = "string" then c.here.content code else "" := by
      intro c child plain x lies
      have inside := Place.here_mem_children child
      have filled := parted.filled_of_child inside plain
      split
      · rename_i quoted
        exact lies.speech_of_string arranged filled quoted (readable.of_child inside)
      · rename_i other
        rw [lies.speech_of_silent arranged (filled.silent other), said, lies.kind_eq, if_neg]
        intro literal
        exact other (parted.part_of_child joined inside literal).2
    rw [lies.speech_of_valueless arranged valued Cst.string_mem_literalKinds
        (fun c child quoted => (parted.part_of_child joined child
          (quoted ▸ Cst.string_mem_literalKinds)).1) each, parted.content_eq_join joined]

end LiesAt

/-! ### A literal that is kept -/

variable {k : Nat}

theorem join_literalLeaves (kept : (p.outline code).preorder[k]? = some q) :
    String.join (((ofPlace code p).literalLeaves k).filterMap (ofPlace code p).value?) =
      (ofPlace code p).speech k := by
  rw [literalLeaves, ← List.filter_filter, join_filterMap_value?, ← List.filter_filter,
    filter_range_ofPlace kept, speech, preorder_ofPlace kept]

/-- The parts of a literal without a value are built, and the expressions that stand in them. -/
theorem parts_of_valueless (kept : q ∈ (p.outline code).preorder) (valueless : q.value? code = none)
    (parted : q.here.Parted) (readable : q.here.Readable code) {part : Place} (listed : part ∈ q.parts) :
    part ∈ (p.outline code).preorder ∧
      ∀ c ∈ part.keptChildren, c.here.isInterpolation → c ∈ (p.outline code).preorder := by
  rw [Place.parts] at listed
  split at listed
  · obtain ⟨child, quoted⟩ := List.mem_filter.mp listed
    have quoted : part.here.kind = "string" := of_decide_eq_true quoted
    have built := Place.mem_outline_of_child kept valueless child
    refine ⟨built, ?_⟩
    intro c grandchild interpolation
    have inside := Place.here_mem_children child
    have plain := Cst.not_isInterpolation_of_literal (quoted ▸ Cst.string_mem_literalKinds)
    have interrupted : part.here.interrupted = true := by
      rw [Cst.interrupted, Cst.parts_of_string quoted, List.any_cons, Bool.or_eq_true]
      exact Or.inl (List.any_eq_true.mpr ⟨_, Place.here_mem_children grandchild, interpolation⟩)
    refine Place.mem_outline_of_child built ?_ grandchild
    rw [(parted.filled_of_child inside plain).parted.value?_eq (Or.inl quoted)
      (readable.of_child inside), if_pos interrupted]
    rfl
  · obtain rfl := List.mem_singleton.mp listed
    exact ⟨kept, fun c child _ => Place.mem_outline_of_child kept valueless child⟩

/-- The leaves of a literal that is kept spell the pieces of the literal, in order and each once.
Without expressions in it, and with some text, it is a leaf by itself. Otherwise it has no value,
and its parts and the expressions in them are built. -/
theorem literal_text_of_kept {code : String} {p q : Place} {k : Nat}
    (kept : (p.outline code.toUTF8).preorder[k]? = some q)
    (literal : q.here.kind = "string" ∨ q.here.kind = "concatenated_string")
    (parted : q.here.Parted) (spans : ∀ n, q.here.Contains n → ∃ text, n.Spans code text) :
    let t := ofPlace code.toUTF8 p
    ∃ texts, List.Forall₂ (Cst.Spans code) q.here.pieces texts ∧
      String.join ((t.literalLeaves k).filterMap t.value?) = String.join texts ∧
      (q.here.interrupted = false ∧ String.join texts ≠ "" →
        t.value? k = some (String.join texts) ∧ t.children k = []) ∧
      (q.here.interrupted = true ∨ String.join texts = "" →
        t.value? k = none ∧ q.parts.map (·.here) = q.here.parts ∧
          ∀ part ∈ q.parts, part ∈ (p.outline code.toUTF8).preorder ∧
            ∀ c ∈ part.keptChildren, c.here.isInterpolation →
              c ∈ (p.outline code.toUTF8).preorder) := by
  intro t
  have readable := Cst.readable_of_spans spans
  have value := parted.value?_eq literal readable
  have lies : LiesAt code.toUTF8 t q k := liesAt_ofPlace kept
  have arranged := (grown_ofPlace code.toUTF8 p).arranged
  refine ⟨_, Cst.spans_pieces spans, ?_, ?_, ?_⟩
  · rw [join_literalLeaves kept]
    exact lies.speech_of_literal arranged parted literal readable
  · rintro ⟨whole, some_text⟩
    have valued : q.value? code.toUTF8 = some (q.here.content code.toUTF8) := by
      rw [value, whole, if_neg Bool.false_ne_true]
      exact Option.filter_eq_some_iff.mpr ⟨rfl, decide_eq_true some_text⟩
    rw [lies.value?_eq, lies.children_of_valued (by rw [valued]; rfl)]
    exact ⟨valued, rfl⟩
  · intro structural
    have valueless : q.value? code.toUTF8 = none := by
      rw [value, Option.filter_eq_none_iff]
      intro text found
      rcases structural with interrupted | empty
      · rw [if_pos interrupted] at found
        cases found
      · split at found
        · cases found
        · obtain rfl := Option.some.inj found
          rw [decide_eq_true_eq, not_not]
          exact empty
    have member := List.mem_of_getElem? kept
    exact ⟨lies.value?_eq.trans valueless, Place.map_here_parts parted, fun part listed =>
      parts_of_valueless member valueless parted readable listed⟩

/-- Adjacent literals: `'a'`, one with `b` before the expression `x`, and one without text. -/
def mixedCode : String := "'a' f'b\x7bx\x7d' ''"

def partAt (kind : String) (firstByte endByte : Nat) (children : List Cst) : Cst :=
  nodeAt kind true false firstByte endByte none children

def plainPart : Cst := partAt "string" 0 3 [leafAt "string_content" true 1 2]

def interpolationOfX : Cst := partAt "interpolation" 7 10 [leafAt "identifier" true 8 9]

def formattedPart : Cst :=
  partAt "string" 4 11 [leafAt "string_content" true 6 7, interpolationOfX]

def emptyPart : Cst := partAt "string" 12 14 []

def mixedLiteral : Cst :=
  partAt "concatenated_string" 0 14 [plainPart, formattedPart, emptyPart]

theorem links_mixedLiteral : mixedLiteral.links =
    [(mixedLiteral, plainPart), (plainPart, leafAt "string_content" true 1 2),
      (mixedLiteral, formattedPart), (formattedPart, leafAt "string_content" true 6 7),
      (formattedPart, interpolationOfX), (mixedLiteral, emptyPart)] := rfl

theorem parted_mixedLiteral : mixedLiteral.Parted := by
  intro parent n link literal
  rw [links_mixedLiteral] at link
  simp only [List.mem_cons, Prod.mk.injEq, List.not_mem_nil, or_false] at link
  rcases link with ⟨rfl, rfl⟩ | ⟨rfl, rfl⟩ | ⟨rfl, rfl⟩ | ⟨rfl, rfl⟩ | ⟨rfl, rfl⟩ | ⟨rfl, rfl⟩
  · exact ⟨rfl, Or.inr ⟨rfl, rfl, rfl⟩⟩
  · exact ⟨rfl, Or.inl ⟨rfl, rfl⟩⟩
  · exact ⟨rfl, Or.inr ⟨rfl, rfl, rfl⟩⟩
  · exact ⟨rfl, Or.inl ⟨rfl, rfl⟩⟩
  · exact absurd literal (by decide)
  · exact ⟨rfl, Or.inr ⟨rfl, rfl, rfl⟩⟩

theorem spans_mixedLiteral (n : Cst) (contains : mixedLiteral.Contains n) :
    ∃ text, n.Spans mixedCode text := by
  have member := Cst.mem_nodes_iff.mpr contains
  rw [show mixedLiteral.nodes = [mixedLiteral, plainPart, leafAt "string_content" true 1 2,
    formattedPart, leafAt "string_content" true 6 7, interpolationOfX,
    leafAt "identifier" true 8 9, emptyPart] from rfl] at member
  simp only [List.mem_cons, List.not_mem_nil, or_false] at member
  rcases member with rfl | rfl | rfl | rfl | rfl | rfl | rfl | rfl
  · exact ⟨mixedCode, "", "", by simp, rfl, by decide +kernel⟩
  · exact ⟨"'a'", "", " f'b\x7bx\x7d' ''", by decide +kernel, rfl, by decide +kernel⟩
  · exact ⟨"a", "'", "' f'b\x7bx\x7d' ''", by decide +kernel, rfl, by decide +kernel⟩
  · exact ⟨"f'b\x7bx\x7d'", "'a' ", " ''", by decide +kernel, rfl, by decide +kernel⟩
  · exact ⟨"b", "'a' f'", "\x7bx\x7d' ''", by decide +kernel, rfl, by decide +kernel⟩
  · exact ⟨"\x7bx\x7d", "'a' f'b", "' ''", by decide +kernel, rfl, by decide +kernel⟩
  · exact ⟨"x", "'a' f'b\x7b", "\x7d' ''", by decide +kernel, rfl, by decide +kernel⟩
  · exact ⟨"''", "'a' f'b\x7bx\x7d' ", "", by decide +kernel, rfl, by decide +kernel⟩

theorem literal_text_of_mixedLiteral :
    mixedLiteral.Parted ∧ (∀ n, mixedLiteral.Contains n → ∃ text, n.Spans mixedCode text) ∧
      (ofCst mixedCode.toUTF8 mixedLiteral).value? 0 = none ∧
      String.join (((ofCst mixedCode.toUTF8 mixedLiteral).literalLeaves 0).filterMap
        (ofCst mixedCode.toUTF8 mixedLiteral).value?) = "ab" := by
  have kept : ((Place.root mixedLiteral).outline mixedCode.toUTF8).preorder[0]? =
      some (.root mixedLiteral) := by
    rw [Place.preorder_outline_eq]
    rfl
  obtain ⟨texts, spelled, said, -, structural⟩ :=
    literal_text_of_kept kept (Or.inr rfl) parted_mixedLiteral spans_mixedLiteral
  have read : texts.map some = mixedLiteral.pieces.map (Cst.text? mixedCode.toUTF8) :=
    Cst.map_eq_of_forall₂ spelled fun _ _ _ spans => spans.text?_eq.symm
  have texts_eq : texts = ["a", "b"] := by
    apply List.map_injective_iff.mpr fun _ _ => Option.some.inj
    rw [read]
    decide +kernel
  rw [texts_eq] at said
  exact ⟨parted_mixedLiteral, spans_mixedLiteral,
    (structural (Or.inl (by decide +kernel))).1, said.trans (by decide +kernel)⟩

end Ast
end LeafPaths
