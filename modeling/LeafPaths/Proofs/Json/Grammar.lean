import LeafPaths.Json.Reader
import LeafPaths.Proofs.Json.Numeral

/-!
The texts that spell a value. The language of a list or a record is put together from those of its
parts.
-/

namespace LeafPaths.Json

open Input (ofChars)

abbrev Language (α : Type) := Input → α → Prop

variable {α β γ κ : Type} {gap gap' text inside later rest : Input} {p close : Piece} {a : α}
  {as : List α}

/-! ### Blanks -/

def Blank (input : Input) : Prop :=
  ∀ p ∈ input, p = .char ' ' ∨ p = .char '\n' ∨ p = .char '\t' ∨ p = .char '\r'

theorem blank_nil : Blank [] := List.forall_mem_nil _

theorem Blank.append (before : Blank gap) (after : Blank gap') : Blank (gap ++ gap') :=
  List.forall_mem_append.mpr ⟨before, after⟩

theorem isBlank_iff :
    Input.isBlank p = true ↔
      p = .char ' ' ∨ p = .char '\n' ∨ p = .char '\t' ∨ p = .char '\r' := by
  simp [Input.isBlank, or_assoc]

/-! ### Lists and records -/

inductive Separator : (first : Bool) → Input → Prop where
  | first {gap : Input} (blank : Blank gap) : Separator true gap
  | later {gap gap' : Input} (before : Blank gap) (after : Blank gap') :
      Separator false (gap ++ .char ',' :: gap')

/-- The items up to the closing bracket, and that bracket. -/
inductive Inside (close : Piece) (lang : Language α) : (first : Bool) → Language (List α) where
  | closed {first : Bool} {gap : Input} (blank : Blank gap) :
      Inside close lang first (gap ++ [close]) []
  | item {first : Bool} {separator text later : Input} {a : α} {as : List α}
      (separated : Separator first separator) (spelled : lang text a)
      (others : Inside close lang false later as) :
      Inside close lang first (separator ++ (text ++ later)) (a :: as)

def ListOf (lang : Language α) : Language (List α) := fun text as =>
  ∃ inside, Inside (.char ']') lang true inside as ∧ text = .char '[' :: inside

def Member (name : Language κ) : Language (κ × Input) := fun text member =>
  ∃ quoted gap gap', name quoted member.1 ∧ Blank gap ∧ Blank gap' ∧
    text = .char '"' :: (quoted ++ (gap ++ .char ':' :: (gap' ++ member.2)))

def MembersOf (name : Language κ) : Language (List (κ × Input)) := fun text members =>
  ∃ inside, Inside (.char '\x7d') (Member name) true inside members ∧ text = .char '\x7b' :: inside

/-! ### Values -/

/-- Of the scalars, a reader may want the texts and the whole numbers of 64 bits. -/
inductive Simple : Language Scalar where
  | text {quoted : Input} {s : String} (spells : Quoted.Spells quoted s) :
      Simple (.char '"' :: quoted) (.text s)
  | whole {k : Int} (low : Int64.minValue.toInt ≤ k) (high : k < UInt64.size) :
      Simple (ofChars (numeral k)) (.number (.whole k))

def Accepted (accept : Scalar → Option α) : Language α := fun text a =>
  ∃ v, Simple text v ∧ accept v = some a

def Quotation : Language String := fun text s =>
  ∃ quoted, Quoted.Spells quoted s ∧ text = .char '"' :: quoted

def Size : Language UInt64 := fun text n => text = ofChars (Nat.toDigits 10 n.toNat)

/-- A value without parts that no one wants. -/
def PassedScalar (text : Input) : Prop :=
  (∃ quoted, Quoted.Passes quoted ∧ text = .char '"' :: quoted) ∨
    (∃ cs, Numeral.Form cs ∧ text = ofChars cs) ∨
    ∃ word ∈ ["null", "true", "false"], text = ofChars word.toList

/-- A value that no one wants, with less than so many levels of lists and records in it. -/
def Passed : Nat → Input → Prop
  | 0, _ => False
  | levels + 1, text =>
    PassedScalar text ∨
      (∃ values, ListOf (fun text (_ : Unit) => Passed levels text) text values) ∨
      ∃ members, MembersOf (fun quoted (_ : Unit) => Quoted.Passes quoted) text members ∧
        ∀ member ∈ members, Passed levels member.2

structure Slot (α : Type) where
  label : String
  lang : Language α

/-- The texts of the values of a name. -/
def valuesOf (label : String) (members : List (String × Input)) : List Input :=
  (members.filter (·.1 = label)).map (·.2)

/-- Either each field has one member, among others that no one wants; or the values stand in a
list. -/
def RecordOf (a : Slot α) (b : Slot β) (c : Slot γ) : Language (α × β × γ)
  | text, (x, y, z) =>
    (∃ members, MembersOf Quoted.Spells text members ∧
        (∃ u, valuesOf a.label members = [u] ∧ a.lang u x) ∧
        (∃ v, valuesOf b.label members = [v] ∧ b.lang v y) ∧
        (∃ w, valuesOf c.label members = [w] ∧ c.lang w z) ∧
        ∀ member ∈ members, member.1 ∉ [a.label, b.label, c.label] →
          ∃ levels, Passed levels member.2) ∨
      ∃ u v w, ListOf Eq text [u, v, w] ∧ a.lang u x ∧ b.lang v y ∧ c.lang w z

/-- A text with nothing but blanks around it. -/
def Document (lang : Language α) : Language α := fun input a =>
  ∃ gap text gap', Blank gap ∧ lang text a ∧ Blank gap' ∧ input = gap ++ (text ++ gap')

/-! ### Lengths -/

variable {first : Bool} {lang lang' : Language α}

theorem Inside.length_lt (nonempty : ∀ {text a}, lang text a → text ≠ [])
    (known : Inside close lang first inside as) : as.length < inside.length := by
  induction known with
  | closed => simp
  | item _ spelled _ ih =>
    have some_piece := List.length_pos_iff.mpr (nonempty spelled)
    simp only [List.length_cons, List.length_append]
    omega

/-- Another language does as well, if it has the texts that are no longer than the whole. -/
theorem Inside.imp (known : Inside close lang first inside as)
    (spelled : ∀ text a, text.length ≤ inside.length → lang text a → lang' text a) :
    Inside close lang' first inside as := by
  induction known with
  | closed blank => exact .closed blank
  | item separated text others ih =>
    refine .item separated (spelled _ _ ?_ text) (ih fun text a short => spelled text a ?_)
    all_goals
      simp only [List.length_append]
      omega

theorem Inside.exists_text (known : Inside close lang first inside as) (member : a ∈ as) :
    ∃ text, lang text a := by
  induction known with
  | closed => cases member
  | item _ spelled _ ih =>
    rcases List.mem_cons.mp member with rfl | member
    · exact ⟨_, spelled⟩
    · exact ih member

theorem Member.length_lt {name : Language κ} {member : κ × Input}
    (spelled : Member name text member) :
    member.2.length < text.length := by
  obtain ⟨quoted, gap, gap', -, -, -, rfl⟩ := spelled
  simp only [List.length_cons, List.length_append]
  omega

theorem Passed.ne_nil {levels : Nat} (passed : Passed levels text) : text ≠ [] := by
  cases levels with
  | zero => exact passed.elim
  | succ levels =>
    rcases passed with (⟨_, -, rfl⟩ | ⟨cs, form, rfl⟩ | ⟨word, known, rfl⟩) | ⟨_, _, -, rfl⟩ |
      ⟨_, ⟨_, -, rfl⟩, -⟩
    · simp
    · obtain ⟨c, cs, rfl, -⟩ := form.exists_eq_cons
      simp
    · have table : ∀ word ∈ ["null", "true", "false"], ofChars word.toList ≠ [] := by decide
      exact table word known
    · simp
    · simp

/-- What is passed over has fewer levels than pieces. -/
theorem Passed.of_length_le {levels bound : Nat} (passed : Passed levels text)
    (short : text.length ≤ bound) : Passed bound text := by
  induction levels generalizing text bound with
  | zero => exact passed.elim
  | succ levels ih =>
    have some_piece := List.length_pos_iff.mpr passed.ne_nil
    obtain ⟨bound, rfl⟩ := Nat.exists_eq_add_of_le' (Nat.lt_of_lt_of_le some_piece short)
    rcases passed with scalar | ⟨values, inside, items, rfl⟩ | ⟨members, ⟨inside, within, rfl⟩, all⟩
    · exact Or.inl scalar
    · have short := Nat.le_of_succ_le_succ short
      refine Or.inr (Or.inl ⟨values, inside, ?_, rfl⟩)
      exact items.imp fun text _ within passed => ih passed (Nat.le_trans within short)
    · have short := Nat.le_of_succ_le_succ short
      refine Or.inr (Or.inr ⟨members, ⟨inside, within, rfl⟩, ?_⟩)
      intro member listed
      have bounded : Inside (.char '\x7d') (fun text member =>
          Member (fun quoted (_ : Unit) => Quoted.Passes quoted) text member ∧
            text.length ≤ inside.length) true inside members :=
        within.imp fun text member short spelled => ⟨spelled, short⟩
      obtain ⟨text, spelled, within⟩ := bounded.exists_text listed
      exact ih (all member listed) (by have := spelled.length_lt; omega)

end LeafPaths.Json
