import Mathlib.Data.List.TakeWhile
import LeafPaths.Proofs.Json.Grammar

/-!
Readers that take exactly the texts of a language. The lemma for each kind of value goes both ways:
what was read is a text of the language, with blanks before it; and each such text is read to its
end. A list is read when its items are, and a record when its members are.
-/

namespace LeafPaths.Json

open Input (ofChars)
open Numeral (Ends)

variable {α β γ κ σ : Type} {gap gap' text inside later input part rest fuel : Input} {p q : Piece}
  {a : α} {as : List α} {first : Bool} {lang : Language α} {r : Input → Result α}

/-! ### Blanks -/

theorem skipBlanks_before (blank : Blank gap) (solid : Input.isBlank p = false) :
    Input.skipBlanks (gap ++ p :: rest) = p :: rest := by
  have skipped : ∀ q ∈ gap, Input.isBlank q = true := fun q member =>
    isBlank_iff.mpr (blank q member)
  rw [Input.skipBlanks, List.dropWhile_append_of_pos skipped]
  exact List.dropWhile_cons_of_neg (by simp [solid])

theorem skipBlanks_eq_cons_iff :
    input.skipBlanks = p :: rest ↔
      ∃ gap, Blank gap ∧ input = gap ++ p :: rest ∧ Input.isBlank p = false := by
  constructor
  · intro found
    refine ⟨input.takeWhile Input.isBlank, ?_, ?_, ?_⟩
    · intro q member
      exact isBlank_iff.mp (List.mem_takeWhile_imp member)
    · rw [← found]
      exact List.takeWhile_append_dropWhile.symm
    · have solid := List.head?_dropWhile_not Input.isBlank input
      rw [show input.dropWhile Input.isBlank = p :: rest from found] at solid
      simpa using solid
  · rintro ⟨gap, blank, rfl, solid⟩
    exact skipBlanks_before blank solid

theorem skipBlanks_eq_nil_iff : input.skipBlanks = [] ↔ Blank input := by
  rw [Input.skipBlanks, List.dropWhile_eq_nil_iff]
  exact forall₂_congr fun p _ => isBlank_iff

/-! ### What comes after -/

theorem ends_before (blank : Blank gap) (ends : Ends (p :: rest)) : Ends (gap ++ p :: rest) := by
  cases gap with
  | nil => exact ends
  | cons q gap =>
    rcases blank q List.mem_cons_self with rfl | rfl | rfl | rfl <;> rfl

theorem ends_of_blank (blank : Blank gap) : Ends gap := by
  cases gap with
  | nil => rfl
  | cons q gap =>
    rcases blank q List.mem_cons_self with rfl | rfl | rfl | rfl <;> rfl

theorem Inside.ends {close : Piece} (closing : Ends [close])
    (known : Inside close lang false inside as) (rest : Input) : Ends (inside ++ rest) := by
  cases known with
  | closed blank =>
    rw [List.append_assoc]
    exact ends_before blank closing
  | item separated =>
    cases separated with
    | later before after =>
      rw [List.append_assoc, List.append_assoc]
      exact ends_before before rfl

/-! ### Readers -/

/-- Such a piece can begin a value, of a list or of a document. -/
def Opens (p : Piece) : Prop := Input.isBlank p = false ∧ p ≠ .char ']'

/-- The reader takes the texts of the language, and blanks before them, and nothing else. -/
structure Takes (r : Input → Result α) (lang : Language α) : Prop where
  opens {text : Input} {a : α} : lang text a → ∃ p later, text = p :: later ∧ Opens p
  sound {input rest : Input} {a : α} : r input = .ok (a, rest) →
    ∃ gap text, Blank gap ∧ lang text a ∧ input = gap ++ (text ++ rest)
  complete {gap text rest : Input} {a : α} : Blank gap → lang text a → Ends rest →
    r (gap ++ (text ++ rest)) = .ok (a, rest)

theorem Takes.ne_nil (takes : Takes r lang) (spelled : lang text a) : text ≠ [] := by
  obtain ⟨p, later, rfl, -⟩ := takes.opens spelled
  exact List.cons_ne_nil p later

/-- A reader that goes by the first piece behind the blanks. -/
theorem takes_of_first {body : Piece → Input → α → Input → Prop}
    (begun : ∀ {input rest a}, r input = .ok (a, rest) ↔
      ∃ p later, input.skipBlanks = p :: later ∧ body p later a rest)
    (opens : ∀ {text a}, lang text a → ∃ p later, text = p :: later ∧ Opens p)
    (sound : ∀ {p input rest a}, body p input a rest →
      ∃ later, lang (p :: later) a ∧ input = later ++ rest)
    (complete : ∀ {p later rest a}, lang (p :: later) a → Ends rest →
      body p (later ++ rest) a rest) : Takes r lang where
  opens := opens
  sound {input rest a} found := by
    obtain ⟨p, later, shape, found⟩ := begun.mp found
    obtain ⟨later, spelled, rfl⟩ := sound found
    obtain ⟨gap, blank, rfl, -⟩ := skipBlanks_eq_cons_iff.mp shape
    exact ⟨gap, p :: later, blank, spelled, rfl⟩
  complete {gap text rest a} blank spelled ends := by
    obtain ⟨p, later, rfl, solid, -⟩ := opens spelled
    exact begun.mpr ⟨p, later ++ rest, skipBlanks_before blank solid, complete spelled ends⟩

theorem Takes.congr {lang' : Language α} (takes : Takes r lang)
    (same : ∀ text a, lang text a ↔ lang' text a) : Takes r lang' := by
  obtain rfl : lang = lang' := funext₂ fun text a => propext (same text a)
  exact takes

/-! ### Values without parts -/

theorem expect_eq_ok_iff {cs : List Char} :
    Input.expect cs input = .ok rest ↔ input = ofChars cs ++ rest := by
  induction cs generalizing input with
  | nil => simp [Input.expect]
  | cons c cs ih =>
    cases input with
    | nil => simp [Input.expect]
    | cons p input =>
      rw [Input.expect, Input.ofChars_cons, List.cons_append, List.cons.injEq]
      split
      next same => simp [same, ih]
      next other => simp [other]

theorem word_eq_ok_iff {letters : String} {v w : Scalar} :
    word letters v input = .ok (w, rest) ↔ w = v ∧ input = ofChars letters.toList ++ rest := by
  rw [word, map_eq_ok_iff]
  simp only [expect_eq_ok_iff, Prod.mk.injEq]
  constructor
  · rintro ⟨_, found, rfl, rfl⟩
    exact ⟨rfl, found⟩
  · rintro ⟨rfl, found⟩
    exact ⟨rest, found, rfl, rfl⟩

def Scalar.isSimple : Scalar → Bool
  | .text _ => true
  | .number (.whole _) => true
  | _ => false

/-- Words, texts and numbers are told apart by the first piece. -/
theorem readScalar_cases {v : Scalar} (found : readScalar p input = .ok (v, rest)) :
    (v.isSimple = false ∧ ∃ spelled ∈ ["null", "true", "false"],
        p :: input = ofChars spelled.toList ++ rest) ∨
      (p = .char '"' ∧ ∃ s, v = .text s ∧ Quoted.read input = .ok (s, rest)) ∨
      (p = .char '-' ∨ Numeral.isDigit p = true) ∧
        ∃ n, v = .number n ∧ Numeral.read true (p :: input) = .ok (n, rest) := by
  rw [readScalar] at found
  split at found
  next first =>
    obtain ⟨rfl, rfl⟩ := word_eq_ok_iff.mp found
    exact Or.inl ⟨rfl, "null", by simp, by rw [first]; rfl⟩
  split at found
  next first =>
    obtain ⟨rfl, rfl⟩ := word_eq_ok_iff.mp found
    exact Or.inl ⟨rfl, "true", by simp, by rw [first]; rfl⟩
  split at found
  next first =>
    obtain ⟨rfl, rfl⟩ := word_eq_ok_iff.mp found
    exact Or.inl ⟨rfl, "false", by simp, by rw [first]; rfl⟩
  split at found
  next quote =>
    obtain ⟨⟨s, _⟩, read, same⟩ := map_eq_ok_iff.mp found
    cases same
    exact Or.inr (Or.inl ⟨quote, s, rfl, read⟩)
  split at found
  next number =>
    obtain ⟨⟨n, _⟩, read, same⟩ := map_eq_ok_iff.mp found
    cases same
    exact Or.inr (Or.inr ⟨number, n, rfl, read⟩)
  next => cases found

theorem exists_simple_of_readScalar {v : Scalar} (found : readScalar p input = .ok (v, rest))
    (simple : v.isSimple) : ∃ later, Simple (p :: later) v ∧ input = later ++ rest := by
  rcases readScalar_cases found with ⟨odd, -⟩ | ⟨rfl, s, rfl, read⟩ | ⟨-, n, rfl, read⟩
  · exact absurd simple (Bool.eq_false_iff.mp odd)
  · obtain ⟨quoted, spells, rfl⟩ := Quoted.read_eq_ok_iff.mp read
    exact ⟨quoted, .text spells, rfl⟩
  · cases n with
    | fractional => cases simple
    | whole k =>
      obtain ⟨low, high, written⟩ := Numeral.eq_numeral_of_read read
      have whole : Simple (ofChars (numeral k)) (.number (.whole k)) := .whole low high
      obtain ⟨c, cs, shape, -⟩ := Numeral.exists_numeral_eq_cons k
      rw [shape] at whole written
      obtain ⟨rfl, rfl⟩ := List.cons.inj written
      exact ⟨ofChars cs, whole, rfl⟩

/-- A number is told by its first character. -/
theorem char_ne_of_number {c d : Char} (first : c = '-' ∨ c.isDigit = true)
    (other : ¬ (d = '-' ∨ d.isDigit = true)) : Piece.char c ≠ .char d :=
  fun same => other (Piece.char.inj same ▸ first)

theorem opens_of_number {c : Char} (first : c = '-' ∨ c.isDigit = true) : Opens (.char c) := by
  refine ⟨?_, char_ne_of_number first (by decide)⟩
  rw [Bool.eq_false_iff, ne_eq, isBlank_iff, not_or, not_or, not_or]
  exact ⟨char_ne_of_number first (by decide), char_ne_of_number first (by decide),
    char_ne_of_number first (by decide), char_ne_of_number first (by decide)⟩

theorem flat_of_number {c : Char} (first : c = '-' ∨ c.isDigit = true) :
    ¬ (Piece.char c = .char '[' ∨ Piece.char c = .char '\x7b') :=
  not_or.mpr ⟨char_ne_of_number first (by decide), char_ne_of_number first (by decide)⟩

theorem Simple.opens {v : Scalar} (simple : Simple text v) :
    ∃ p later, text = p :: later ∧ Opens p := by
  cases simple with
  | text => exact ⟨_, _, rfl, rfl, by simp⟩
  | @whole k low high =>
    obtain ⟨c, cs, shape, first⟩ := Numeral.exists_numeral_eq_cons k
    exact ⟨.char c, ofChars cs, by rw [shape]; rfl, opens_of_number first⟩

theorem readScalar_of_simple {v : Scalar} (simple : Simple (p :: later) v) (ends : Ends rest) :
    ¬ (p = .char '[' ∨ p = .char '\x7b') ∧ readScalar p (later ++ rest) = .ok (v, rest) := by
  generalize shape : p :: later = text at simple
  cases simple with
  | @text quoted s spells =>
    obtain ⟨rfl, rfl⟩ := List.cons.inj shape
    have read : Quoted.read (later ++ rest) = .ok (s, rest) :=
      Quoted.read_eq_ok_iff.mpr ⟨later, spells, rfl⟩
    refine ⟨by decide, ?_⟩
    rw [readScalar, if_neg (by decide), if_neg (by decide), if_neg (by decide), if_pos rfl, read]
    rfl
  | @whole k low high =>
    obtain ⟨c, cs, digits, first⟩ := Numeral.exists_numeral_eq_cons k
    rw [digits] at shape
    obtain ⟨rfl, rfl⟩ := List.cons.inj shape
    have read : Numeral.read true (ofChars (numeral k) ++ rest) = .ok (.whole k, rest) :=
      Numeral.read_numeral low high ends
    rw [digits] at read
    have number : Piece.char c = .char '-' ∨ Numeral.isDigit (.char c) = true :=
      first.imp (congrArg Piece.char) id
    refine ⟨flat_of_number first, ?_⟩
    rw [readScalar, if_neg (char_ne_of_number first (by decide)),
      if_neg (char_ne_of_number first (by decide)), if_neg (char_ne_of_number first (by decide)),
      if_neg (char_ne_of_number first (by decide)), if_pos number]
    exact map_eq_ok_iff.mpr ⟨_, read, rfl⟩

theorem takes_accepted {accept : Scalar → Option α}
    (simple : ∀ {v a}, accept v = some a → v.isSimple)
    (begun : ∀ {input rest a}, r input = .ok (a, rest) ↔
      ∃ p later, input.skipBlanks = p :: later ∧ ¬ (p = .char '[' ∨ p = .char '\x7b') ∧
        ∃ v, readScalar p later = .ok (v, rest) ∧ accept v = some a) :
    Takes r (Accepted accept) := by
  refine takes_of_first begun ?_ ?_ ?_
  · rintro text a ⟨v, spelled, -⟩
    exact spelled.opens
  · rintro p input rest a ⟨-, v, found, accepted⟩
    obtain ⟨later, spelled, rfl⟩ := exists_simple_of_readScalar found (simple accepted)
    exact ⟨later, ⟨v, spelled, accepted⟩, rfl⟩
  · rintro p later rest a ⟨v, spelled, accepted⟩ ends
    obtain ⟨flat, found⟩ := readScalar_of_simple spelled ends
    exact ⟨flat, v, found, accepted⟩

theorem readAs_eq_ok_iff {accept : Scalar → Option α} :
    readAs accept input = .ok (a, rest) ↔
      ∃ p later, input.skipBlanks = p :: later ∧ ¬ (p = .char '[' ∨ p = .char '\x7b') ∧
        ∃ v, readScalar p later = .ok (v, rest) ∧ accept v = some a := by
  rw [readAs]
  cases input.skipBlanks with
  | nil => simp
  | cons p later =>
    simp only [List.cons.injEq]
    constructor
    · intro found
      split at found
      · cases found
      next flat =>
        refine ⟨p, later, ⟨rfl, rfl⟩, flat, ?_⟩
        split at found
        · cases found
        next v _ read =>
          split at found
          next accepted =>
            cases found
            exact ⟨v, read, accepted⟩
          next => cases found
    · rintro ⟨_, _, ⟨rfl, rfl⟩, flat, v, read, accepted⟩
      simp only [flat, if_false, read, accepted]

theorem refuse_ne_ok : refuse input ≠ .ok (a, rest) := by
  rw [refuse, ne_eq, readAs_eq_ok_iff]
  rintro ⟨_, _, -, -, _, -, ⟨⟩⟩

theorem takes_readText (depth : Nat) : Takes (readText depth) Quotation := by
  refine (takes_accepted ?simple readAs_eq_ok_iff).congr fun text s => ?_
  case simple =>
    intro v s accepted
    split at accepted
    · rfl
    · cases accepted
  constructor
  · rintro ⟨v, spelled, accepted⟩
    cases spelled with
    | text spells =>
      cases accepted
      exact ⟨_, spells, rfl⟩
    | whole => cases accepted
  · rintro ⟨quoted, spells, rfl⟩
    exact ⟨_, .text spells, rfl⟩

theorem takes_readSize (depth : Nat) : Takes (readSize depth) Size := by
  refine (takes_accepted ?simple readAs_eq_ok_iff).congr fun text n => ?_
  case simple =>
    intro v n accepted
    split at accepted
    · rfl
    · cases accepted
  constructor
  · rintro ⟨v, spelled, accepted⟩
    cases spelled with
    | text => cases accepted
    | @whole k low high =>
      dsimp only at accepted
      split at accepted
      next positive =>
        cases accepted
        obtain ⟨m, rfl⟩ := Int.eq_ofNat_of_zero_le positive
        have small : m < UInt64.size := Int.ofNat_lt.mp high
        simp only [Size, Int.toNat_natCast, UInt64.toNat_ofNat_of_lt' small]
        rfl
      next => cases accepted
  · rintro rfl
    have low : Int64.minValue.toInt ≤ (n.toNat : Int) :=
      Int.le_trans (by decide) (Int.natCast_nonneg _)
    exact ⟨_, .whole low (Int.ofNat_lt.mpr n.toNat_lt), by simp⟩

/-- A reader of any value finds a scalar only where one stands. -/
theorem readAny_eq_scalar_iff {depth : Nat} {v : Scalar} :
    readAny depth input = .ok (.scalar v, rest) ↔
      ∃ p later, input.skipBlanks = p :: later ∧ ¬ (p = .char '[' ∨ p = .char '\x7b') ∧
        readScalar p later = .ok (v, rest) := by
  unfold readAny
  cases input.skipBlanks with
  | nil => simp
  | cons p later =>
    simp only [List.cons.injEq, and_assoc, exists_and_left, exists_eq_left']
    by_cases list : p = .char '['
    · cases depth <;> simp [list, map_eq_ok_iff]
    by_cases record : p = .char '\x7b'
    · cases depth <;> simp [record, map_eq_ok_iff]
    · simp [list, record, map_eq_ok_iff]

/-! ### Lists -/

theorem nextItem_eq_closed_iff :
    nextItem first input = .ok (.closed rest) ↔
      ∃ gap, Blank gap ∧ input = gap ++ .char ']' :: rest := by
  constructor
  · intro found
    rw [nextItem] at found
    split at found
    · cases found
    next p later shape =>
      obtain ⟨gap, blank, rfl, -⟩ := skipBlanks_eq_cons_iff.mp shape
      split at found
      next closing =>
        cases found
        exact ⟨gap, blank, by rw [closing]⟩
      split at found
      · cases found
      split at found
      next =>
        split at found
        · cases found
        · split at found <;> cases found
      next => cases found
  · rintro ⟨gap, blank, rfl⟩
    rw [nextItem, skipBlanks_before blank rfl]
    exact if_pos rfl

theorem Separator.append {separator : Input} (separated : Separator first separator)
    (blank : Blank gap) : Separator first (separator ++ gap) := by
  cases separated with
  | first before => exact .first (before.append blank)
  | later before after =>
    rw [List.append_assoc, List.cons_append]
    exact .later before (after.append blank)

theorem exists_separator_of_nextItem (found : nextItem first input = .ok (.part part)) :
    ∃ separator, Separator first separator ∧ input = separator ++ part := by
  rw [nextItem] at found
  split at found
  · cases found
  next p later shape =>
    obtain ⟨gap, blank, rfl, -⟩ := skipBlanks_eq_cons_iff.mp shape
    split at found
    · cases found
    split at found
    next start =>
      cases found
      exact ⟨gap, start ▸ .first blank, rfl⟩
    split at found
    next started comma =>
      subst comma
      split at found
      · cases found
      next q later shape =>
        obtain ⟨gap', blank', rfl, -⟩ := skipBlanks_eq_cons_iff.mp shape
        split at found
        · cases found
        next =>
          cases found
          obtain rfl := Bool.eq_false_iff.mpr started
          exact ⟨gap ++ .char ',' :: gap', .later blank blank', by simp⟩
    next => cases found

theorem nextItem_of_separator {separator : Input} (separated : Separator first separator)
    (opens : Opens p) : nextItem first (separator ++ p :: rest) = .ok (.part (p :: rest)) := by
  cases separated with
  | first blank =>
    rw [nextItem, skipBlanks_before blank opens.1]
    simp only [opens.2, if_false, if_true]
  | later before after =>
    rw [List.append_assoc, List.cons_append, nextItem, skipBlanks_before before rfl]
    simp only [skipBlanks_before after opens.1, opens.2, if_false]
    rfl

variable {item : Input → Result α}

/-- What the reader of items does in one turn, when it succeeds. -/
theorem items_eq_ok_iff :
    items item (p :: fuel) first input = .ok (as, rest) ↔
      (nextItem first input = .ok (.closed rest) ∧ as = []) ∨
        ∃ part a later more, nextItem first input = .ok (.part part) ∧
          item part = .ok (a, later) ∧ items item fuel false later = .ok (more, rest) ∧
          as = a :: more := by
  rw [items]
  constructor
  · intro found
    split at found
    · cases found
    next closed =>
      cases found
      exact Or.inl ⟨closed, rfl⟩
    next part begun =>
      split at found
      · cases found
      next a later read =>
        split at found
        · cases found
        next more _ others =>
          cases found
          exact Or.inr ⟨part, a, later, more, begun, read, others, rfl⟩
  · rintro (⟨closed, rfl⟩ | ⟨part, a, later, more, begun, read, others, rfl⟩)
    · rw [closed]
    · simp only [begun, read, others]

theorem Takes.inside_of_items (takes : Takes item lang)
    (found : items item fuel first input = .ok (as, rest)) :
    ∃ inside, Inside (.char ']') lang first inside as ∧ input = inside ++ rest := by
  induction fuel generalizing first input as with
  | nil => cases found
  | cons p fuel ih =>
    rcases items_eq_ok_iff.mp found with
      ⟨closed, rfl⟩ | ⟨part, a, later, more, begun, read, others, rfl⟩
    · obtain ⟨gap, blank, rfl⟩ := nextItem_eq_closed_iff.mp closed
      exact ⟨gap ++ [.char ']'], .closed blank, by simp⟩
    · obtain ⟨separator, separated, rfl⟩ := exists_separator_of_nextItem begun
      obtain ⟨gap, text, blank, spelled, rfl⟩ := takes.sound read
      obtain ⟨inside, known, rfl⟩ := ih others
      exact ⟨_, .item (separated.append blank) spelled known, by simp⟩

theorem Takes.items_of_inside (takes : Takes item lang)
    (known : Inside (.char ']') lang first inside as) (enough : as.length < fuel.length) :
    items item fuel first (inside ++ rest) = .ok (as, rest) := by
  induction known generalizing fuel with
  | closed blank =>
    obtain ⟨p, fuel, rfl⟩ := List.exists_cons_of_length_pos enough
    exact items_eq_ok_iff.mpr (Or.inl ⟨nextItem_eq_closed_iff.mpr ⟨_, blank, by simp⟩, rfl⟩)
  | @item first separator text later a as separated spelled others ih =>
    obtain ⟨p, fuel, rfl⟩ := List.exists_cons_of_length_pos (Nat.zero_lt_of_lt enough)
    refine items_eq_ok_iff.mpr (Or.inr ⟨text ++ (later ++ rest), a, later ++ rest, as, ?_, ?_,
      ih (Nat.lt_of_succ_lt_succ enough), rfl⟩)
    · obtain ⟨p, tail, rfl, opens⟩ := takes.opens spelled
      rw [List.append_assoc, List.append_assoc]
      exact nextItem_of_separator separated opens
    · have ends : Ends [Piece.char ']'] := rfl
      exact takes.complete blank_nil spelled (others.ends ends rest)

theorem Takes.allItems_eq_ok_iff (takes : Takes item lang) :
    allItems item input = .ok (as, rest) ↔
      ∃ inside, Inside (.char ']') lang true inside as ∧ input = inside ++ rest := by
  constructor
  · exact takes.inside_of_items
  · rintro ⟨inside, known, rfl⟩
    have shorter := known.length_lt takes.ne_nil
    refine takes.items_of_inside known ?_
    rw [List.length_append]
    exact Nat.lt_add_right _ shorter

theorem takes_readList {item : Reader α} {depth : Nat} (takes : Takes (item depth) lang) :
    Takes (readList item (depth + 1)) (ListOf lang) := by
  have begun : ∀ {input rest as}, readList item (depth + 1) input = .ok (as, rest) ↔
      ∃ p later, input.skipBlanks = p :: later ∧ p = .char '[' ∧
        allItems (item depth) later = .ok (as, rest) := by
    intro input rest as
    rw [readList]
    split
    next later shape => simp [shape]
    next other =>
      constructor
      · intro found
        exact (refuse_ne_ok found).elim
      · rintro ⟨_, later, shape, rfl, -⟩
        exact (other later shape).elim
  refine takes_of_first begun ?_ ?_ ?_
  · rintro text as ⟨inside, -, rfl⟩
    exact ⟨_, inside, rfl, rfl, by decide⟩
  · rintro p input rest as ⟨rfl, found⟩
    obtain ⟨inside, known, rfl⟩ := takes.allItems_eq_ok_iff.mp found
    exact ⟨inside, ⟨inside, known, rfl⟩, rfl⟩
  · rintro p later rest as ⟨inside, known, shape⟩ -
    obtain ⟨rfl, rfl⟩ := List.cons.inj shape
    exact ⟨rfl, takes.allItems_eq_ok_iff.mpr ⟨later, known, rfl⟩⟩

/-! ### Members -/

theorem nextMember_eq_closed_iff :
    nextMember first input = .ok (.closed rest) ↔
      ∃ gap, Blank gap ∧ input = gap ++ .char '\x7d' :: rest := by
  constructor
  · intro found
    rw [nextMember] at found
    split at found
    · cases found
    next p later shape =>
      obtain ⟨gap, blank, rfl, -⟩ := skipBlanks_eq_cons_iff.mp shape
      split at found
      next closing =>
        cases found
        exact ⟨gap, blank, by rw [closing]⟩
      split at found
      · split at found <;> cases found
      split at found
      next =>
        split at found
        · cases found
        · split at found <;> cases found
      next => cases found
  · rintro ⟨gap, blank, rfl⟩
    rw [nextMember, skipBlanks_before blank rfl]
    exact if_pos rfl

theorem nextMember_eq_part_iff :
    nextMember first input = .ok (.part part) ↔
      ∃ separator, Separator first separator ∧ input = separator ++ .char '"' :: part := by
  constructor
  · intro found
    rw [nextMember] at found
    split at found
    · cases found
    next p later shape =>
      obtain ⟨gap, blank, rfl, -⟩ := skipBlanks_eq_cons_iff.mp shape
      split at found
      · cases found
      split at found
      next start =>
        split at found
        next quote =>
          cases found
          exact ⟨gap, start ▸ .first blank, by rw [quote]⟩
        next => cases found
      split at found
      next _ started comma =>
        subst comma
        split at found
        · cases found
        next q later shape =>
          obtain ⟨gap', blank', rfl, -⟩ := skipBlanks_eq_cons_iff.mp shape
          split at found
          next quote =>
            cases found
            obtain rfl := Bool.eq_false_iff.mpr started
            exact ⟨gap ++ .char ',' :: gap', .later blank blank', by simp [quote]⟩
          next => cases found
      next => cases found
  · rintro ⟨separator, separated, rfl⟩
    cases separated with
    | first blank =>
      rw [nextMember, skipBlanks_before blank rfl]
      rfl
    | later before after =>
      rw [List.append_assoc, List.cons_append, nextMember, skipBlanks_before before rfl]
      simp only [skipBlanks_before after (p := .char '"') rfl]
      rfl

theorem afterColon_eq_ok_iff :
    afterColon r input = .ok (a, rest) ↔
      ∃ gap later, Blank gap ∧ input = gap ++ .char ':' :: later ∧ r later = .ok (a, rest) := by
  rw [afterColon]
  constructor
  · intro found
    split at found
    · cases found
    next p later shape =>
      obtain ⟨gap, blank, rfl, -⟩ := skipBlanks_eq_cons_iff.mp shape
      split at found
      next colon =>
        subst colon
        exact ⟨gap, later, blank, rfl, found⟩
      next => cases found
  · rintro ⟨gap, later, blank, rfl, found⟩
    rw [skipBlanks_before blank rfl]
    exact found

theorem Takes.exists_of_afterColon (takes : Takes r lang)
    (found : afterColon r input = .ok (a, rest)) :
    ∃ gap gap' value, Blank gap ∧ Blank gap' ∧ lang value a ∧
      input = gap ++ .char ':' :: (gap' ++ (value ++ rest)) := by
  obtain ⟨gap, later, before, rfl, read⟩ := afterColon_eq_ok_iff.mp found
  obtain ⟨gap', value, after, spelled, rfl⟩ := takes.sound read
  exact ⟨gap, gap', value, before, after, spelled, rfl⟩

theorem Takes.afterColon_of_spelled {value : Input} (takes : Takes r lang) (before : Blank gap)
    (after : Blank gap') (spelled : lang value a) (ends : Ends rest) :
    afterColon r (gap ++ .char ':' :: (gap' ++ (value ++ rest))) = .ok (a, rest) :=
  afterColon_eq_ok_iff.mpr ⟨gap, _, before, rfl, takes.complete after spelled ends⟩

/-- The states that the members of a record lead through, each by the text of its value. -/
inductive Folds (step : κ → Input → σ → σ → Prop) : List (κ × Input) → σ → σ → Prop where
  | nil (s : σ) : Folds step [] s s
  | cons {k : κ} {value : Input} {members : List (κ × Input)} {s s' s'' : σ}
      (stepped : step k value s s') (later : Folds step members s' s'') :
      Folds step ((k, value) :: members) s s''

/-- The reader of a member, which starts before the colon, takes the values that make a step. -/
structure TakesMember (member : κ → σ → Input → Result σ) (step : κ → Input → σ → σ → Prop) :
    Prop where
  sound {k : κ} {s s' : σ} {input rest : Input} : member k s input = .ok (s', rest) →
    ∃ gap gap' value, Blank gap ∧ Blank gap' ∧ step k value s s' ∧
      input = gap ++ .char ':' :: (gap' ++ (value ++ rest))
  complete {k : κ} {s s' : σ} {gap gap' value rest : Input} : Blank gap → Blank gap' →
    step k value s s' → Ends rest →
    member k s (gap ++ .char ':' :: (gap' ++ (value ++ rest))) = .ok (s', rest)

variable {key : Input → Result κ} {name : Language κ} {member : κ → σ → Input → Result σ}
  {step : κ → Input → σ → σ → Prop} {s s' : σ} {written : List (κ × Input)}

theorem members_eq_ok_iff :
    members key member (p :: fuel) first s input = .ok (s', rest) ↔
      (nextMember first input = .ok (.closed rest) ∧ s' = s) ∨
        ∃ part k value later next, nextMember first input = .ok (.part part) ∧
          key part = .ok (k, value) ∧ member k s value = .ok (next, later) ∧
          members key member fuel false next later = .ok (s', rest) := by
  rw [members]
  constructor
  · intro found
    split at found
    · cases found
    next closed =>
      cases found
      exact Or.inl ⟨closed, rfl⟩
    next part begun =>
      split at found
      · cases found
      next k value named =>
        split at found
        · cases found
        next next later stepped =>
          exact Or.inr ⟨part, k, value, later, next, begun, named, stepped, found⟩
  · rintro (⟨closed, rfl⟩ | ⟨part, k, value, later, next, begun, named, stepped, others⟩)
    · rw [closed]
    · simp only [begun, named, stepped, others]

theorem TakesMember.inside_of_members (takes : TakesMember member step)
    (exact_name : ∀ {input k rest}, key input = .ok (k, rest) ↔
      ∃ quoted, name quoted k ∧ input = quoted ++ rest)
    (found : members key member fuel first s input = .ok (s', rest)) :
    ∃ inside written, Inside (.char '\x7d') (Member name) first inside written ∧
      Folds step written s s' ∧ input = inside ++ rest := by
  induction fuel generalizing first input s with
  | nil => cases found
  | cons p fuel ih =>
    rcases members_eq_ok_iff.mp found with
      ⟨closed, rfl⟩ | ⟨part, k, value, later, next, begun, named, stepped, others⟩
    · obtain ⟨gap, blank, rfl⟩ := nextMember_eq_closed_iff.mp closed
      exact ⟨gap ++ [.char '\x7d'], [], .closed blank, .nil s', by simp⟩
    · obtain ⟨separator, separated, rfl⟩ := nextMember_eq_part_iff.mp begun
      obtain ⟨quoted, spelled, rfl⟩ := exact_name.mp named
      obtain ⟨gap, gap', text, before, after, led, rfl⟩ := takes.sound stepped
      obtain ⟨inside, written, known, folds, rfl⟩ := ih others
      exact ⟨_, (k, text) :: written,
        .item separated ⟨quoted, gap, gap', spelled, before, after, rfl⟩ known,
        .cons led folds, by simp⟩

theorem TakesMember.members_of_inside (takes : TakesMember member step)
    (exact_name : ∀ {input k rest}, key input = .ok (k, rest) ↔
      ∃ quoted, name quoted k ∧ input = quoted ++ rest)
    (known : Inside (.char '\x7d') (Member name) first inside written)
    (folds : Folds step written s s') (enough : written.length < fuel.length) :
    members key member fuel first s (inside ++ rest) = .ok (s', rest) := by
  induction known generalizing fuel s with
  | closed blank =>
    obtain ⟨p, fuel, rfl⟩ := List.exists_cons_of_length_pos enough
    cases folds
    exact members_eq_ok_iff.mpr (Or.inl ⟨nextMember_eq_closed_iff.mpr ⟨_, blank, by simp⟩, rfl⟩)
  | @item first separator text later entry written separated spelled others ih =>
    obtain ⟨p, fuel, rfl⟩ := List.exists_cons_of_length_pos (Nat.zero_lt_of_lt enough)
    obtain ⟨quoted, gap, gap', named, before, after, rfl⟩ := spelled
    have ends : Ends [Piece.char '\x7d'] := rfl
    cases folds with
    | @cons k value _ _ next _ stepped folds =>
      refine members_eq_ok_iff.mpr (Or.inr ⟨_, k, _, later ++ rest, next,
        nextMember_eq_part_iff.mpr ⟨separator, separated, ?_⟩,
        exact_name.mpr ⟨quoted, named, rfl⟩,
        takes.complete before after stepped (others.ends ends rest),
        ih folds (Nat.lt_of_succ_lt_succ enough)⟩)
      simp

theorem TakesMember.allMembers_eq_ok_iff (takes : TakesMember member step)
    (exact_name : ∀ {input k rest}, key input = .ok (k, rest) ↔
      ∃ quoted, name quoted k ∧ input = quoted ++ rest) :
    allMembers key member s input = .ok (s', rest) ↔
      ∃ inside written, Inside (.char '\x7d') (Member name) true inside written ∧
        Folds step written s s' ∧ input = inside ++ rest := by
  constructor
  · exact takes.inside_of_members exact_name
  · rintro ⟨inside, written, known, folds, rfl⟩
    have shorter := known.length_lt fun {text entry} spelled =>
      List.length_pos_iff.mp (Nat.zero_lt_of_lt spelled.length_lt)
    refine takes.members_of_inside exact_name known folds ?_
    rw [List.length_append]
    exact Nat.lt_add_right _ shorter

end LeafPaths.Json
