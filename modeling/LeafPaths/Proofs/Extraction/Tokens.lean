import LeafPaths.Proofs.Ast.Layout
import LeafPaths.Proofs.Context.Schedule
import LeafPaths.Proofs.Path
import LeafPaths.Cst.Value
import LeafPaths.Proofs.Cst.Search

/-!
What contexts are spelled with. Their tokens have no character but from the text of a word, of a
number or of the content of a quoted literal; their paths have none but the marks and the kinds of
nodes.
-/

namespace LeafPaths

/-- The kinds of nodes whose text is a token, or a part of one. -/
def textKinds : List String :=
  ["identifier", "integer", "float", "string_content", "true", "false", "none"]

namespace Cst

variable {code : ByteArray} {t n : Cst} {v : String} {x : Char}

/-- The character stands in the text of a node that can give a token, or in the name of `...`. -/
def Spells (code : ByteArray) (t : Cst) (x : Char) : Prop :=
  x ∈ "Ellipsis".toList ∨
    ∃ n, t.Contains n ∧ n.kind ∈ textKinds ∧ ∃ v, n.text? code = some v ∧ x ∈ v.toList

theorem Spells.of_contains (contains : t.Contains n) (spells : n.Spells code x) :
    t.Spells code x := by
  rcases spells with ellipsis | ⟨m, inner, rest⟩
  · exact Or.inl ellipsis
  · exact Or.inr ⟨m, contains.trans inner, rest⟩

theorem Spells.of_text? (kind : t.kind ∈ textKinds) (found : t.text? code = some v)
    (member : x ∈ v.toList) : t.Spells code x :=
  Or.inr ⟨t, .here, kind, v, found, member⟩

theorem exists_of_mem_mapM {α β : Type} {f : α → Option β} {as : List α} {bs : List β}
    (found : as.mapM f = some bs) {b : β} (member : b ∈ bs) : ∃ a ∈ as, f a = some b := by
  induction as generalizing bs with
  | nil =>
    cases found
    cases member
  | cons a as ih =>
    rw [List.mapM_cons] at found
    obtain ⟨first, head, rest⟩ := Option.bind_eq_some_iff.mp found
    obtain ⟨others, tail, same⟩ := Option.bind_eq_some_iff.mp rest
    cases same
    rcases List.mem_cons.mp member with rfl | member
    · exact ⟨a, List.mem_cons_self, head⟩
    · obtain ⟨c, listed, value⟩ := ih tail member
      exact ⟨c, List.mem_cons_of_mem a listed, value⟩

theorem spells_of_parts {part : String} {f : Cst → Option String}
    (found : ((t.namedChildren.filter (·.kind == part)).mapM f).map String.join = some v)
    (spells : ∀ c w, c.kind = part → f c = some w → x ∈ w.toList → c.Spells code x)
    (member : x ∈ v.toList) : t.Spells code x := by
  obtain ⟨parts, gathered, rfl⟩ := Option.map_eq_some_iff.mp found
  rw [String.toList_join, List.mem_flatMap] at member
  obtain ⟨w, listed, member⟩ := member
  obtain ⟨c, chosen, value⟩ := exists_of_mem_mapM gathered listed
  obtain ⟨named, kind⟩ := List.mem_filter.mp chosen
  have child : c ∈ t.children := (List.mem_filter.mp named).1
  exact .of_contains (.step child .here) (spells c w (by simpa using kind) value member)

theorem spells_of_quoted? (found : t.quoted? code = some v) (member : x ∈ v.toList) :
    t.Spells code x := by
  rw [quoted?] at found
  split at found
  · cases found
  · refine spells_of_parts found ?_ member
    intro c w content text
    exact .of_text? (by rw [content]; decide) text

theorem spells_of_joined? (found : t.joined? code = some v) (member : x ∈ v.toList) :
    t.Spells code x :=
  spells_of_parts found (fun _ _ _ value => spells_of_quoted? value) member

end Cst

theorem ValueRule.mem_of_of? {kind : String} {rule : ValueRule} (found : of? kind = some rule) :
    (kind, rule) ∈ valueRules := by
  obtain ⟨before, after, rules, -⟩ := List.lookup_eq_some_iff.mp found
  rw [rules]
  exact List.mem_append_right _ List.mem_cons_self

theorem ValueRule.mem_textKinds {kind : String} {rule : ValueRule} (found : of? kind = some rule)
    (plain : rule = .word ∨ rule = .text) : kind ∈ textKinds := by
  have all : ∀ entry ∈ valueRules, entry.2 = .word ∨ entry.2 = .text → entry.1 ∈ textKinds := by
    decide
  exact all _ (mem_of_of? found) plain

namespace Place

variable {code : ByteArray} {p q : Place} {v : String} {x : Char}

theorem spells_of_value? (found : p.value? code = some v) (member : x ∈ v.toList) :
    p.here.Spells code x := by
  obtain ⟨found, -⟩ := Option.filter_eq_some_iff.mp found
  obtain ⟨rule, known, applied⟩ := Option.bind_eq_some_iff.mp found
  cases rule with
  | word =>
    rw [applyRule?] at applied
    split at applied
    · cases applied
    · exact .of_text? (ValueRule.mem_textKinds known (Or.inl rfl)) applied member
  | text => exact .of_text? (ValueRule.mem_textKinds known (Or.inr rfl)) applied member
  | fixed value =>
    have listed := ValueRule.mem_of_of? known
    simp only [valueRules, List.mem_cons, Prod.mk.injEq, reduceCtorEq, and_false, false_or,
      ValueRule.fixed.injEq, List.not_mem_nil, or_false] at listed
    obtain rfl := Option.some.inj applied
    rw [listed.2] at member
    exact Or.inl member
  | quoted => exact Cst.spells_of_quoted? applied member
  | joined => exact Cst.spells_of_joined? applied member

theorem contains_of_mem_outline (member : q ∈ (p.outline code).preorder) :
    p.here.Contains q.here := by
  induction p using induction_on_keptChildren with
  | step p ih =>
    rw [preorder_outline_eq] at member
    rcases List.mem_cons.mp member with rfl | member
    · exact .here
    · split at member
      · cases member
      · obtain ⟨c, child, below⟩ := List.mem_flatMap.mp member
        exact .step (here_mem_children child) (ih c child below)

end Place

theorem Path.mem_text {p : Path} {x : Char} (member : x ∈ p.text.toList) :
    x ∈ ['(', ')', '^', '_'] ∨ ∃ kind ∈ p.up ++ p.top :: p.down, x ∈ kind.toList := by
  simp only [text, segment, String.toList_append, String.toList_join, List.flatMap_map,
    List.mem_append, List.mem_flatMap] at member
  rcases member with (⟨kind, listed, ((mark | char) | mark) | mark⟩ | (mark | char) | mark) |
    ⟨kind, listed, mark | (mark | char) | mark⟩
  case inl.inl.inl.inl.inr => exact Or.inr ⟨kind, by simp [listed], char⟩
  case inl.inr.inl.inr => exact Or.inr ⟨p.top, by simp, char⟩
  case inr.inr.inl.inr => exact Or.inr ⟨kind, by simp [listed], char⟩
  all_goals exact Or.inl (by simp at mark; simp [mark])

namespace Ast

variable {t : Ast} {code : ByteArray} {p : Place} {settings : Settings} {c : Context} {x : Char}

theorem exists_ends_of_mem_extract (member : c ∈ t.extract settings) :
    ∃ start ∈ t.leaves, ∃ finish ∈ t.leaves, t.context? settings.limits start finish = some c := by
  rw [extract_eq_take, Pairs.remaining_of] at member
  obtain ⟨ends, listed, found⟩ := List.mem_filterMap.mp (List.mem_of_mem_take member)
  obtain ⟨first, second⟩ := mem_of_mem_orderedPairs listed
  exact ⟨ends.1, first, ends.2, second, found⟩

theorem exists_place_of_mem {n : Node} (member : n ∈ (ofPlace code p).nodes) :
    ∃ q ∈ (p.outline code).preorder, q.here.kind = n.kind ∧ q.value? code = n.value := by
  have listed : (n.kind, n.value) ∈ (p.outline code).preorder.map (Place.label code) := by
    rw [← map_toList_ofPlace]
    exact List.mem_map_of_mem (Array.mem_toList_iff.mpr member)
  obtain ⟨q, place, label⟩ := List.mem_map.mp listed
  exact ⟨q, place, congrArg Prod.fst label, congrArg Prod.snd label⟩

theorem spells_of_value? {id : Nat} {v : String} (found : (ofPlace code p).value? id = some v)
    (member : x ∈ v.toList) : p.here.Spells code x := by
  obtain ⟨n, present, value⟩ := Option.bind_eq_some_iff.mp found
  obtain ⟨q, place, -, same⟩ := exists_place_of_mem (Array.mem_of_getElem? present)
  rw [value] at same
  exact .of_contains (Place.contains_of_mem_outline place) (Place.spells_of_value? same member)

theorem exists_contains_of_mem_kind (id : Nat) :
    x ∈ ((ofPlace code p).kind id).toList → ∃ n, p.here.Contains n ∧ x ∈ n.kind.toList := by
  apply forall_kind fun kind => x ∈ kind.toList → ∃ n, p.here.Contains n ∧ x ∈ n.kind.toList
  · intro n present member
    obtain ⟨q, place, same, -⟩ := exists_place_of_mem present
    rw [← same] at member
    exact ⟨q.here, Place.contains_of_mem_outline place, member⟩
  · intro member
    cases member

/-- The characters of a context: those of its tokens are found in the texts of nodes, those of its
path in their kinds. -/
theorem spells_of_mem_extract (member : c ∈ (ofPlace code p).extract settings) :
    (∀ x, x ∈ c.start.toList ∨ x ∈ c.finish.toList → p.here.Spells code x) ∧
      ∀ x ∈ c.path.toList, x ∈ ['(', ')', '^', '_'] ∨ ∃ n, p.here.Contains n ∧ x ∈ n.kind.toList := by
  obtain ⟨start, leaf, finish, leaf', found⟩ := exists_ends_of_mem_extract member
  obtain ⟨path, a, b, way, first, last, rfl⟩ := context?_eq_some_iff.mp found
  constructor
  · rintro x (char | char)
    · exact spells_of_value? first char
    · exact spells_of_value? last char
  · intro x char
    rcases Path.mem_text char with mark | ⟨kind, listed, char⟩
    · exact Or.inl mark
    · have arranged := (grown_ofPlace code p).arranged
      obtain ⟨n, present, -⟩ := Option.bind_eq_some_iff.mp first
      obtain ⟨m, present', -⟩ := Option.bind_eq_some_iff.mp last
      have passes := arranged.passes_of_path? (lt_size_of_node? present)
        (lt_size_of_node? present') way
      have spelled := passes.forall_kind
        (fun kind => x ∈ kind.toList → ∃ n, p.here.Contains n ∧ x ∈ n.kind.toList)
        exists_contains_of_mem_kind
      exact Or.inr (spelled kind listed char)

end Ast
end LeafPaths
