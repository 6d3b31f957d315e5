import Mathlib.Data.List.Forall2
import LeafPaths.Json
import LeafPaths.Proofs.Json.Record
import LeafPaths.Proofs.Text.Bytes

/-!
What is printed of a document is a text of its value, in any layout and at any level. A reader of
the language therefore reads the value back.
-/

namespace LeafPaths.Json

open Input (ofChars)

variable {α β γ : Type} {document : Json} {lang : Language α} {a : α} {as : List α}

/-- On every level the document is written as a text of the value. -/
def Writes (document : Json) (lang : Language α) (a : α) : Prop :=
  ∀ layout level, lang (ofChars (document.render layout level)) a

theorem blank_lineBreak (layout : Layout) (level : Nat) :
    Blank (ofChars (layout.lineBreak level)) := by
  cases layout with
  | compact => exact blank_nil
  | indented width =>
    intro p member
    rw [Layout.lineBreak, Input.ofChars_cons] at member
    rcases List.mem_cons.mp member with rfl | member
    · exact Or.inr (Or.inl rfl)
    · obtain ⟨c, listed, rfl⟩ := List.mem_map.mp member
      rw [List.eq_of_mem_replicate listed]
      exact Or.inl rfl

theorem exists_colon (layout : Layout) :
    ∃ gap, Blank gap ∧ ofChars layout.colon = .char ':' :: gap := by
  cases layout with
  | compact => exact ⟨[], blank_nil, rfl⟩
  | indented width => exact ⟨[.char ' '], by simp [Blank], rfl⟩

/-! ### Values without parts -/

theorem writes_text (s : String) : Writes (.text s) Quotation s := by
  intro layout level
  rw [render, quote]
  exact ⟨_, Quoted.spells_quote s, rfl⟩

theorem writes_size (n : UInt64) : Writes (.number n.toNat) Size n := by
  intro layout level
  rw [render]
  rfl

/-! ### Lists -/

theorem inside_renderItems {documents : List Json} (layout : Layout) (level outer : Nat)
    (written : List.Forall₂ (Writes · lang) documents as) :
    Inside (.char ']') lang false
      (ofChars (renderItems layout level documents ++ (layout.lineBreak outer ++ [']']))) as := by
  induction written with
  | nil =>
    rw [renderItems, List.nil_append, Input.ofChars_append]
    exact .closed (blank_lineBreak layout outer)
  | cons first later ih =>
    have separated := Separator.later blank_nil (blank_lineBreak layout level)
    have listed := Inside.item separated (first layout level) ih
    rw [renderItems]
    simpa using listed

theorem writes_list {documents : List Json} (written : List.Forall₂ (Writes · lang) documents as) :
    Writes (.list documents) (ListOf lang) as := by
  intro layout level
  cases written with
  | nil =>
    rw [render]
    exact ⟨_, .closed blank_nil, rfl⟩
  | @cons document a documents as first later =>
    have separated := Separator.first (blank_lineBreak layout (level + 1))
    have listed := Inside.item separated (first layout (level + 1))
      (inside_renderItems layout (level + 1) level later)
    rw [render]
    exact ⟨_, listed, by simp⟩

theorem writes_list_map {toJson : α → Json} (written : ∀ a, Writes (toJson a) lang a)
    (as : List α) : Writes (.list (as.map toJson)) (ListOf lang) as :=
  writes_list (List.forall₂_map_left_iff.mpr (List.forall₂_same.mpr fun a _ => written a))

/-! ### Records -/

def texts (layout : Layout) (level : Nat) (members : List (String × Json)) :
    List (String × Input) :=
  members.map fun member => (member.1, ofChars (member.2.render layout level))

theorem member_quote (layout : Layout) (level : Nat) (key : String) (value : Json) :
    Member Quoted.Spells
      (ofChars (quote key ++ (layout.colon ++ value.render layout level)))
      (key, ofChars (value.render layout level)) := by
  obtain ⟨gap, blank, colon⟩ := exists_colon layout
  refine ⟨_, [], gap, Quoted.spells_quote key, blank_nil, blank, ?_⟩
  rw [quote]
  simp [colon]

theorem inside_renderMembers (layout : Layout) (level outer : Nat)
    (members : List (String × Json)) :
    Inside (.char '\x7d') (Member Quoted.Spells) false
      (ofChars (renderMembers layout level members ++ (layout.lineBreak outer ++ ['\x7d'])))
      (texts layout level members) := by
  induction members with
  | nil =>
    rw [renderMembers, List.nil_append, Input.ofChars_append]
    exact .closed (blank_lineBreak layout outer)
  | cons member members ih =>
    obtain ⟨key, value⟩ := member
    have separated := Separator.later blank_nil (blank_lineBreak layout level)
    have listed := Inside.item separated (member_quote layout level key value) ih
    rw [renderMembers]
    simpa [texts] using listed

theorem membersOf_render (layout : Layout) (level : Nat) (members : List (String × Json)) :
    MembersOf Quoted.Spells (ofChars ((Json.record members).render layout level))
      (texts layout (level + 1) members) := by
  match members with
  | [] =>
    rw [render]
    exact ⟨_, .closed blank_nil, rfl⟩
  | (key, value) :: members =>
    have separated := Separator.first (blank_lineBreak layout (level + 1))
    have listed := Inside.item separated (member_quote layout (level + 1) key value)
      (inside_renderMembers layout (level + 1) level members)
    rw [render]
    exact ⟨_, listed, by simp⟩

/-- The fields are written in their order, and nothing else is. -/
theorem writes_record {a : Slot α} {b : Slot β} {c : Slot γ} {x : α} {y : β} {z : γ}
    {u v w : Json} (distinct : [a.label, b.label, c.label].Nodup) (first : Writes u a.lang x)
    (second : Writes v b.lang y) (third : Writes w c.lang z) :
    Writes (.record [(a.label, u), (b.label, v), (c.label, w)]) (RecordOf a b c) (x, y, z) := by
  intro layout level
  simp only [List.nodup_cons, List.mem_cons, List.not_mem_nil, or_false, not_or] at distinct
  obtain ⟨⟨ab, ac⟩, bc, -⟩ := distinct
  refine Or.inl ⟨_, membersOf_render layout level _, ⟨_, ?_, first layout (level + 1)⟩,
    ⟨_, ?_, second layout (level + 1)⟩, ⟨_, ?_, third layout (level + 1)⟩, ?_⟩
  · simp [texts, valuesOf, Ne.symm ab, Ne.symm ac]
  · simp [texts, valuesOf, ab, Ne.symm bc]
  · simp [texts, valuesOf, ac, bc]
  · simp [texts]

/-! ### Documents -/

def Reader.decode (r : Reader α) (s : String) : Except Fault α := readDocument r (.ofString s)

/-- Nothing but blanks may follow a document. -/
theorem decode_print_append {r : Reader α} (takes : Takes (r maxDepth) lang)
    (written : Writes document lang a) (layout : Layout) {s : String}
    (blank : Blank (.ofString s)) : r.decode (document.print layout ++ s) = .ok a := by
  have whole : Input.ofString (document.print layout ++ s) =
      ofChars (document.render layout 0) ++ .ofString s := by
    rw [Input.ofString, String.toList_append, List.map_append, print, String.toList_ofList]
    rfl
  rw [Reader.decode, whole]
  exact (readDocument_eq_ok_iff takes).mpr
    ⟨[], _, .ofString s, blank_nil, written layout 0, blank, rfl⟩

theorem decode_print {r : Reader α} (takes : Takes (r maxDepth) lang)
    (written : Writes document lang a) (layout : Layout) :
    r.decode (document.print layout) = .ok a := by
  have found := decode_print_append (s := "") takes written layout blank_nil
  rwa [String.append_empty] at found

theorem ofBytes_toUTF8 (s : String) : Input.ofBytes s.toUTF8 = .ofString s := by
  rw [Input.ofBytes, Text.fromUTF8?_toUTF8]

end LeafPaths.Json
