import LeafPaths.Proofs.Json.Reader

/-!
Records of three fields, with members that no one wants among theirs. Such a member may hold any
value; it is passed over, and the fields are found wherever they stand.
-/

namespace LeafPaths.Json

open Input (ofChars)
open Numeral (Ends)

variable {α β γ κ σ : Type} {gap gap' text inside later input part rest fuel : Input} {p q : Piece}
  {a : α} {as : List α} {first : Bool} {lang : Language α} {r : Input → Result α}
  {step : κ → Input → σ → σ → Prop} {s s' : σ} {written : List (κ × Input)}

/-! ### Values that are not wanted -/

theorem exists_word {spelled : String} (known : spelled ∈ ["null", "true", "false"]) :
    ∃ c letters v, spelled.toList = c :: letters.toList ∧ Opens (.char c) ∧
      ¬ (Piece.char c = .char '[' ∨ Piece.char c = .char '\x7b') ∧
      ∀ input, skipScalar (.char c) input =
        (word letters v input).map fun found => ((), found.2) := by
  simp only [List.mem_cons, List.not_mem_nil, or_false] at known
  rcases known with rfl | rfl | rfl
  · exact ⟨'n', "ull", .null, by decide, ⟨rfl, by decide⟩, by decide, fun _ => rfl⟩
  · exact ⟨'t', "rue", .bool true, by decide, ⟨rfl, by decide⟩, by decide, fun _ => rfl⟩
  · exact ⟨'f', "alse", .bool false, by decide, ⟨rfl, by decide⟩, by decide, fun _ => rfl⟩

theorem PassedScalar.opens (passed : PassedScalar text) :
    ∃ p later, text = p :: later ∧ Opens p := by
  rcases passed with ⟨quoted, -, rfl⟩ | ⟨cs, form, rfl⟩ | ⟨spelled, known, rfl⟩
  · exact ⟨_, quoted, rfl, rfl, by decide⟩
  · obtain ⟨c, cs, rfl, first⟩ := form.exists_eq_cons
    exact ⟨_, _, rfl, opens_of_number first⟩
  · obtain ⟨c, letters, -, shape, opens, -⟩ := exists_word known
    exact ⟨_, _, by rw [shape]; rfl, opens⟩

theorem exists_passed_of_skipScalar {u : Unit} (found : skipScalar p input = .ok (u, rest)) :
    ∃ later, PassedScalar (p :: later) ∧ input = later ++ rest := by
  rw [skipScalar] at found
  split at found
  next quote =>
    obtain ⟨quoted, passes, rfl⟩ := Quoted.skip_eq_ok_iff.mp found
    exact ⟨quoted, Or.inl ⟨quoted, passes, by rw [quote]⟩, rfl⟩
  split at found
  next =>
    obtain ⟨⟨n, _⟩, read, same⟩ := map_eq_ok_iff.mp found
    cases same
    obtain ⟨cs, form, written⟩ := Numeral.form_of_read read
    obtain ⟨c, cs, rfl, -⟩ := form.exists_eq_cons
    obtain ⟨rfl, rfl⟩ := List.cons.inj written
    exact ⟨ofChars cs, Or.inr (Or.inl ⟨_, form, rfl⟩), rfl⟩
  next quote number =>
    obtain ⟨⟨v, _⟩, read, same⟩ := map_eq_ok_iff.mp found
    cases same
    rcases readScalar_cases read with ⟨-, spelled, known, written⟩ | ⟨quoted, -⟩ | ⟨digits, -⟩
    · obtain ⟨c, letters, -, shape, -⟩ := exists_word known
      rw [shape] at written
      obtain ⟨rfl, rfl⟩ := List.cons.inj written
      exact ⟨_, Or.inr (Or.inr ⟨spelled, known, by rw [shape]; rfl⟩), rfl⟩
    · exact (quote quoted).elim
    · exact (number digits).elim

theorem skipScalar_of_passed (passed : PassedScalar (p :: later)) (ends : Ends rest) :
    ¬ (p = .char '[' ∨ p = .char '\x7b') ∧ skipScalar p (later ++ rest) = .ok ((), rest) := by
  rcases passed with ⟨quoted, passes, shape⟩ | ⟨cs, form, shape⟩ | ⟨word, known, shape⟩
  · obtain ⟨rfl, rfl⟩ := List.cons.inj shape
    refine ⟨by decide, ?_⟩
    rw [skipScalar, if_pos rfl]
    exact Quoted.skip_eq_ok_iff.mpr ⟨later, passes, rfl⟩
  · obtain ⟨n, read⟩ := Numeral.exists_read_of_form form ends
    obtain ⟨c, cs, rfl, first⟩ := form.exists_eq_cons
    obtain ⟨rfl, rfl⟩ := List.cons.inj shape
    have number : Piece.char c = .char '-' ∨ Numeral.isDigit (.char c) = true :=
      first.imp (congrArg Piece.char) id
    refine ⟨flat_of_number first, ?_⟩
    rw [skipScalar, if_neg (char_ne_of_number first (by decide)), if_pos number]
    exact map_eq_ok_iff.mpr ⟨_, read, rfl⟩
  · obtain ⟨c, letters, v, split, -, flat, skips⟩ := exists_word known
    rw [split] at shape
    obtain ⟨rfl, rfl⟩ := List.cons.inj shape
    refine ⟨flat, ?_⟩
    rw [skips]
    exact map_eq_ok_iff.mpr ⟨(v, rest), word_eq_ok_iff.mpr ⟨rfl, rfl⟩, rfl⟩

theorem Takes.takesMember (takes : Takes r lang) :
    TakesMember (fun (_ : κ) (_ : α) => afterColon r) fun _ value _ a => lang value a :=
  ⟨takes.exists_of_afterColon, takes.afterColon_of_spelled⟩

theorem folds_iff_forall {passed : Input → Prop} {u u' : Unit} :
    Folds (fun (_ : κ) value (_ _ : Unit) => passed value) written u u' ↔
      ∀ entry ∈ written, passed entry.2 := by
  induction written with
  | nil => exact ⟨fun _ => List.forall_mem_nil _, fun _ => .nil u⟩
  | cons entry written ih =>
    rw [List.forall_mem_cons, ← ih]
    constructor
    · rintro (_ | ⟨first, later⟩)
      exact ⟨first, later⟩
    · rintro ⟨first, later⟩
      exact .cons first later

theorem skipValue_eq_ok_iff {u : Unit} :
    skipValue (q :: fuel) input = .ok (u, rest) ↔
      ∃ p later, input.skipBlanks = p :: later ∧
        ((p = .char '[' ∧ ∃ values, allItems (skipValue fuel) later = .ok (values, rest)) ∨
        (p = .char '\x7b' ∧ allMembers Quoted.skip (fun _ _ => afterColon (skipValue fuel)) ()
          later = .ok (u, rest)) ∨
        (¬ (p = .char '[' ∨ p = .char '\x7b') ∧ skipScalar p later = .ok (u, rest))) := by
  rw [skipValue]
  cases input.skipBlanks with
  | nil => simp
  | cons p later =>
    simp only [List.cons.injEq, and_assoc, exists_and_left, exists_eq_left']
    by_cases list : p = .char '['
    · simp [list, map_eq_ok_iff]
    by_cases record : p = .char '\x7b'
    · simp [record]
    · simp [list, record]

/-- The reader goes as many levels deep as it has pieces. -/
theorem takes_skipValue (fuel : Input) :
    Takes (skipValue fuel) fun text (_ : Unit) => Passed fuel.length text := by
  induction fuel with
  | nil => exact ⟨nofun, nofun, fun _ impossible => impossible.elim⟩
  | cons q fuel ih =>
    have members : TakesMember (fun (_ _ : Unit) => afterColon (skipValue fuel))
        fun _ value _ _ => Passed fuel.length value :=
      ih.takesMember
    refine takes_of_first skipValue_eq_ok_iff ?_ ?_ ?_
    · rintro text u (scalar | ⟨_, inside, -, rfl⟩ | ⟨_, ⟨inside, -, rfl⟩, -⟩)
      · exact scalar.opens
      · exact ⟨_, inside, rfl, rfl, by decide⟩
      · exact ⟨_, inside, rfl, rfl, by decide⟩
    · rintro p input rest u (⟨rfl, values, found⟩ | ⟨rfl, found⟩ | ⟨-, found⟩)
      · obtain ⟨inside, known, rfl⟩ := ih.allItems_eq_ok_iff.mp found
        exact ⟨inside, Or.inr (Or.inl ⟨values, inside, known, rfl⟩), rfl⟩
      · obtain ⟨inside, written, known, folds, rfl⟩ :=
          (members.allMembers_eq_ok_iff Quoted.skip_eq_ok_iff).mp found
        exact ⟨inside, Or.inr (Or.inr ⟨written, ⟨inside, known, rfl⟩, folds_iff_forall.mp folds⟩),
          rfl⟩
      · obtain ⟨later, passed, rfl⟩ := exists_passed_of_skipScalar found
        exact ⟨later, Or.inl passed, rfl⟩
    · rintro p later rest u (scalar | ⟨values, inside, known, shape⟩ |
        ⟨written, ⟨inside, known, shape⟩, all⟩) ends
      · obtain ⟨flat, found⟩ := skipScalar_of_passed scalar ends
        exact Or.inr (Or.inr ⟨flat, found⟩)
      · obtain ⟨rfl, rfl⟩ := List.cons.inj shape
        exact Or.inl ⟨rfl, values, ih.allItems_eq_ok_iff.mpr ⟨later, known, rfl⟩⟩
      · obtain ⟨rfl, rfl⟩ := List.cons.inj shape
        exact Or.inr (Or.inl ⟨rfl, (members.allMembers_eq_ok_iff Quoted.skip_eq_ok_iff).mpr
          ⟨later, written, known, folds_iff_forall.mpr all, rfl⟩⟩)

/-! ### Records of three fields -/

def Slot.Step (slot : Slot α) (key : String) (value : Input) (met met' : Option α) : Prop :=
  if key = slot.label then met = none ∧ ∃ a, slot.lang value a ∧ met' = some a else met' = met

theorem valuesOf_cons {label key : String} {value : Input} {written : List (String × Input)} :
    valuesOf label ((key, value) :: written) =
      if key = label then value :: valuesOf label written else valuesOf label written := by
  rw [valuesOf, List.filter_cons]
  split <;> simp_all [valuesOf]

theorem folds_cons_iff {k : κ} {value : Input} :
    Folds step ((k, value) :: written) s s' ↔
      ∃ next, step k value s next ∧ Folds step written next s' := by
  constructor
  · rintro (_ | ⟨stepped, later⟩)
    exact ⟨_, stepped, later⟩
  · rintro ⟨next, stepped, later⟩
    exact .cons stepped later

theorem folds_nil_iff : Folds step [] s s' ↔ s' = s := by
  constructor
  · rintro ⟨⟩
    rfl
  · rintro rfl
    exact .nil s'

/-- A field that was filled takes no other value. -/
theorem folds_slot_some_iff {slot : Slot α} {written : List (String × Input)} {met : Option α} :
    Folds slot.Step written (some a) met ↔ valuesOf slot.label written = [] ∧ met = some a := by
  induction written with
  | nil => simp [folds_nil_iff, valuesOf]
  | cons entry written ih =>
    obtain ⟨key, value⟩ := entry
    rw [folds_cons_iff, valuesOf_cons]
    by_cases same : key = slot.label
    · simp [Slot.Step, same]
    · simp [Slot.Step, same, ih]

theorem folds_slot_iff {slot : Slot α} {written : List (String × Input)} :
    Folds slot.Step written none (some a) ↔
      ∃ value, valuesOf slot.label written = [value] ∧ slot.lang value a := by
  induction written with
  | nil => simp [folds_nil_iff, valuesOf]
  | cons entry written ih =>
    obtain ⟨key, value⟩ := entry
    rw [folds_cons_iff, valuesOf_cons]
    by_cases same : key = slot.label
    · simp only [Slot.Step, if_pos same, true_and, List.cons.injEq]
      constructor
      · rintro ⟨_, ⟨a', spelled, rfl⟩, later⟩
        obtain ⟨none_left, found⟩ := folds_slot_some_iff.mp later
        cases found
        exact ⟨value, ⟨rfl, none_left⟩, spelled⟩
      · rintro ⟨_, ⟨rfl, none_left⟩, spelled⟩
        exact ⟨some a, ⟨a, spelled, rfl⟩, folds_slot_some_iff.mpr ⟨none_left, rfl⟩⟩
    · simp [Slot.Step, same, ih]

structure RecordStep (a : Slot α) (b : Slot β) (c : Slot γ) (key : String) (value : Input)
    (s s' : Draft α β γ) : Prop where
  first : a.Step key value s.first s'.first
  second : b.Step key value s.second s'.second
  third : c.Step key value s.third s'.third
  other : key ∉ [a.label, b.label, c.label] → ∃ levels, Passed levels value

theorem recordStep_iff_slots {a : Slot α} {b : Slot β} {c : Slot γ} {key : String}
    {value : Input} {s s' : Draft α β γ} :
    RecordStep a b c key value s s' ↔ a.Step key value s.first s'.first ∧
      b.Step key value s.second s'.second ∧ c.Step key value s.third s'.third ∧
      (key ∉ [a.label, b.label, c.label] → ∃ levels, Passed levels value) :=
  ⟨fun step => ⟨step.first, step.second, step.third, step.other⟩,
    fun ⟨first, second, third, other⟩ => ⟨first, second, third, other⟩⟩

/-- With equal names, the first of two fields would take the values of both. -/
theorem recordStep_iff {a : Slot α} {b : Slot β} {c : Slot γ} {key : String} {value : Input}
    {s s' : Draft α β γ} (distinct : [a.label, b.label, c.label].Nodup) :
    RecordStep a b c key value s s' ↔
      (key = a.label ∧ s.first = none ∧ ∃ x, a.lang value x ∧ s' = { s with first := some x }) ∨
      (key = b.label ∧ s.second = none ∧ ∃ y, b.lang value y ∧ s' = { s with second := some y }) ∨
      (key = c.label ∧ s.third = none ∧ ∃ z, c.lang value z ∧ s' = { s with third := some z }) ∨
      key ∉ [a.label, b.label, c.label] ∧ (∃ levels, Passed levels value) ∧ s' = s := by
  simp only [List.nodup_cons, List.mem_cons, List.not_mem_nil, or_false, not_or] at distinct
  obtain ⟨⟨ab, ac⟩, bc, -⟩ := distinct
  obtain ⟨x, y, z⟩ := s
  obtain ⟨x', y', z'⟩ := s'
  rw [recordStep_iff_slots]
  by_cases first : key = a.label
  · grind [Slot.Step]
  by_cases second : key = b.label
  · grind [Slot.Step]
  by_cases third : key = c.label
  · grind [Slot.Step]
  · grind [Slot.Step]

theorem folds_recordStep_iff {a : Slot α} {b : Slot β} {c : Slot γ} {s s' : Draft α β γ}
    {written : List (String × Input)} :
    Folds (RecordStep a b c) written s s' ↔
      Folds a.Step written s.first s'.first ∧ Folds b.Step written s.second s'.second ∧
        Folds c.Step written s.third s'.third ∧
        ∀ entry ∈ written, entry.1 ∉ [a.label, b.label, c.label] →
          ∃ levels, Passed levels entry.2 := by
  induction written generalizing s with
  | nil =>
    simp only [folds_nil_iff]
    cases s
    cases s'
    simp
  | cons entry written ih =>
    obtain ⟨key, value⟩ := entry
    simp only [folds_cons_iff, List.forall_mem_cons, ih]
    constructor
    · rintro ⟨next, stepped, first, second, third, others⟩
      exact ⟨⟨_, stepped.first, first⟩, ⟨_, stepped.second, second⟩, ⟨_, stepped.third, third⟩,
        stepped.other, others⟩
    · rintro ⟨⟨x, first, first'⟩, ⟨y, second, second'⟩, ⟨z, third, third'⟩, other, others⟩
      exact ⟨⟨x, y, z⟩, ⟨first, second, third, other⟩, first', second', third', others⟩

section
variable {a : Field α} {b : Field β} {c : Field γ} {A : Language α} {B : Language β}
  {C : Language γ} {depth : Nat}

theorem Field.fill_eq_ok_iff {met : Option α} {x : α} :
    a.fill depth met input = .ok (x, rest) ↔
      met = none ∧ afterColon (a.read depth) input = .ok (x, rest) := by
  cases met <;> simp [fill]

theorem readMember_eq_ok_iff {key : String} {s s' : Draft α β γ}
    (distinct : [a.label, b.label, c.label].Nodup) :
    readMember a b c depth key s input = .ok (s', rest) ↔
      (key = a.label ∧ s.first = none ∧ ∃ x, afterColon (a.read depth) input = .ok (x, rest) ∧
        s' = { s with first := some x }) ∨
      (key = b.label ∧ s.second = none ∧ ∃ y, afterColon (b.read depth) input = .ok (y, rest) ∧
        s' = { s with second := some y }) ∨
      (key = c.label ∧ s.third = none ∧ ∃ z, afterColon (c.read depth) input = .ok (z, rest) ∧
        s' = { s with third := some z }) ∨
      key ∉ [a.label, b.label, c.label] ∧ afterColon (skipValue input) input = .ok ((), rest) ∧
        s' = s := by
  simp only [List.nodup_cons, List.mem_cons, List.not_mem_nil, or_false, not_or] at distinct
  obtain ⟨⟨ab, ac⟩, bc, -⟩ := distinct
  rw [readMember]
  split
  next first =>
    simp only [map_eq_ok_iff, Prod.exists, Field.fill_eq_ok_iff, Prod.mk.injEq]
    grind
  split
  next second =>
    simp only [map_eq_ok_iff, Prod.exists, Field.fill_eq_ok_iff, Prod.mk.injEq]
    grind
  split
  next third =>
    simp only [map_eq_ok_iff, Prod.exists, Field.fill_eq_ok_iff, Prod.mk.injEq]
    grind
  next first second third =>
    simp only [map_eq_ok_iff, Prod.exists, Prod.mk.injEq]
    grind

theorem takes_readMember (distinct : [a.label, b.label, c.label].Nodup)
    (first : Takes (a.read depth) A) (second : Takes (b.read depth) B)
    (third : Takes (c.read depth) C) :
    TakesMember (readMember a b c depth) (RecordStep ⟨a.label, A⟩ ⟨b.label, B⟩ ⟨c.label, C⟩) := by
  constructor
  · intro key s s' input rest found
    rcases (readMember_eq_ok_iff distinct).mp found with ⟨known, free, x, read, rfl⟩ |
      ⟨known, free, y, read, rfl⟩ | ⟨known, free, z, read, rfl⟩ | ⟨unknown, skipped, rfl⟩
    · obtain ⟨gap, gap', value, before, after, spelled, rfl⟩ := first.exists_of_afterColon read
      exact ⟨gap, gap', value, before, after,
        (recordStep_iff distinct).mpr (Or.inl ⟨known, free, x, spelled, rfl⟩), rfl⟩
    · obtain ⟨gap, gap', value, before, after, spelled, rfl⟩ := second.exists_of_afterColon read
      exact ⟨gap, gap', value, before, after,
        (recordStep_iff distinct).mpr (Or.inr (Or.inl ⟨known, free, y, spelled, rfl⟩)), rfl⟩
    · obtain ⟨gap, gap', value, before, after, spelled, rfl⟩ := third.exists_of_afterColon read
      exact ⟨gap, gap', value, before, after,
        (recordStep_iff distinct).mpr (Or.inr (Or.inr (Or.inl ⟨known, free, z, spelled, rfl⟩))), rfl⟩
    · obtain ⟨gap, gap', value, before, after, passed, rfl⟩ :=
        (takes_skipValue input).exists_of_afterColon skipped
      exact ⟨gap, gap', value, before, after,
        (recordStep_iff distinct).mpr (Or.inr (Or.inr (Or.inr ⟨unknown, ⟨_, passed⟩, rfl⟩))), rfl⟩
  · intro key s s' gap gap' value rest before after step ends
    refine (readMember_eq_ok_iff distinct).mpr ?_
    rcases (recordStep_iff distinct).mp step with ⟨known, free, x, spelled, rfl⟩ |
      ⟨known, free, y, spelled, rfl⟩ | ⟨known, free, z, spelled, rfl⟩ |
      ⟨unknown, ⟨levels, passed⟩, rfl⟩
    · exact Or.inl ⟨known, free, x, first.afterColon_of_spelled before after spelled ends, rfl⟩
    · have read := second.afterColon_of_spelled before after spelled ends
      exact Or.inr (Or.inl ⟨known, free, y, read, rfl⟩)
    · have read := third.afterColon_of_spelled before after spelled ends
      exact Or.inr (Or.inr (Or.inl ⟨known, free, z, read, rfl⟩))
    · have bounded : Passed (gap ++ .char ':' :: (gap' ++ (value ++ rest))).length value := by
        refine passed.of_length_le ?_
        simp only [List.length_cons, List.length_append]
        omega
      have skips := takes_skipValue (gap ++ .char ':' :: (gap' ++ (value ++ rest)))
      exact Or.inr (Or.inr (Or.inr ⟨unknown,
        skips.afterColon_of_spelled before after bounded ends, rfl⟩))

theorem Takes.exists_of_readItem {item : Reader α} {x : α} (takes : Takes (item depth) A)
    (found : readItem first item depth input = .ok (x, rest)) :
    ∃ separator text, Separator first separator ∧ A text x ∧
      input = separator ++ (text ++ rest) := by
  rw [readItem] at found
  split at found
  · cases found
  · cases found
  next part begun =>
    obtain ⟨separator, separated, rfl⟩ := exists_separator_of_nextItem begun
    obtain ⟨gap, text, blank, spelled, rfl⟩ := takes.sound found
    exact ⟨separator ++ gap, text, separated.append blank, spelled, by simp⟩

theorem Takes.readItem_of_spelled {item : Reader α} {x : α} {separator : Input}
    (takes : Takes (item depth) A) (separated : Separator first separator) (spelled : A text x)
    (ends : Ends rest) :
    readItem first item depth (separator ++ (text ++ rest)) = .ok (x, rest) := by
  have begun : nextItem first (separator ++ (text ++ rest)) = .ok (.part (text ++ rest)) := by
    obtain ⟨p, later, rfl, opens⟩ := takes.opens spelled
    exact nextItem_of_separator separated opens
  rw [readItem, begun]
  exact takes.complete blank_nil spelled ends

theorem closeList_eq_ok_iff :
    closeList input = .ok rest ↔ ∃ gap, Blank gap ∧ input = gap ++ .char ']' :: rest := by
  rw [closeList]
  constructor
  · intro found
    split at found
    · cases found
    next p later shape =>
      obtain ⟨gap, blank, rfl, -⟩ := skipBlanks_eq_cons_iff.mp shape
      split at found
      next closing =>
        cases found
        exact ⟨gap, blank, by rw [closing]⟩
      next => cases found
  · rintro ⟨gap, blank, rfl⟩
    rw [skipBlanks_before blank rfl]
    exact if_pos rfl

theorem readRow_eq_ok_iff {x : α} {y : β} {z : γ} (takesFirst : Takes (a.read depth) A)
    (takesSecond : Takes (b.read depth) B) (takesThird : Takes (c.read depth) C) :
    readRow a b c depth input = .ok ((x, y, z), rest) ↔
      ∃ inside u v w, Inside (.char ']') Eq true inside [u, v, w] ∧ A u x ∧ B v y ∧ C w z ∧
        input = inside ++ rest := by
  rw [readRow]
  constructor
  · intro found
    obtain ⟨⟨x', later⟩, first, found⟩ := bind_eq_ok_iff.mp found
    obtain ⟨⟨y', last⟩, second, found⟩ := bind_eq_ok_iff.mp found
    obtain ⟨⟨z', tail⟩, third, found⟩ := bind_eq_ok_iff.mp found
    obtain ⟨closed, closing, same⟩ := bind_eq_ok_iff.mp found
    cases same
    obtain ⟨separator, u, separated, spelled, rfl⟩ := takesFirst.exists_of_readItem first
    obtain ⟨separator', v, separated', spelled', rfl⟩ := takesSecond.exists_of_readItem second
    obtain ⟨separator'', w, separated'', spelled'', rfl⟩ := takesThird.exists_of_readItem third
    obtain ⟨gap, blank, rfl⟩ := closeList_eq_ok_iff.mp closing
    exact ⟨_, u, v, w, .item separated rfl (.item separated' rfl (.item separated'' rfl
      (.closed blank))), spelled, spelled', spelled'', by simp⟩
  · rintro ⟨_, u, v, w, (_ | ⟨separated, rfl, others⟩), spelled, spelled', spelled'', rfl⟩
    have closes : Ends [Piece.char ']'] := rfl
    have ends := others.ends closes rest
    obtain _ | ⟨separated', rfl, others⟩ := others
    have ends' := others.ends closes rest
    obtain _ | ⟨separated'', rfl, others⟩ := others
    have ends'' := others.ends closes rest
    obtain @⟨_, gap, blank⟩ := others
    have first := takesFirst.readItem_of_spelled separated spelled ends
    have second := takesSecond.readItem_of_spelled separated' spelled' ends'
    have third := takesThird.readItem_of_spelled separated'' spelled'' ends''
    have closing : closeList (gap ++ [.char ']'] ++ rest) = .ok rest :=
      closeList_eq_ok_iff.mpr ⟨gap, blank, by simp⟩
    simp only [List.append_assoc] at first second third closing ⊢
    simp only [first, second, third, closing, bind, Except.bind]

theorem readRecord_eq_ok_iff {x : α} {y : β} {z : γ} :
    readRecord a b c (depth + 1) input = .ok ((x, y, z), rest) ↔
      ∃ p later, input.skipBlanks = p :: later ∧
        ((p = .char '\x7b' ∧ allMembers Quoted.read (readMember a b c depth) ⟨none, none, none⟩
            later = .ok (⟨some x, some y, some z⟩, rest)) ∨
          (p = .char '[' ∧ readRow a b c depth later = .ok ((x, y, z), rest))) := by
  unfold readRecord
  constructor
  · intro found
    split at found
    next impossible => cases impossible
    next later _ shape same =>
      obtain rfl := Nat.succ.inj same
      refine ⟨_, later, shape, Or.inl ⟨rfl, ?_⟩⟩
      split at found
      · cases found
      next members =>
        cases found
        exact members
      · cases found
    next impossible => cases impossible
    next later _ shape same =>
      obtain rfl := Nat.succ.inj same
      exact ⟨_, later, shape, Or.inr ⟨rfl, found⟩⟩
    next => exact (refuse_ne_ok found).elim
  · rintro ⟨p, later, shape, ⟨rfl, members⟩ | ⟨rfl, row⟩⟩
    · rw [shape]
      simp only [members]
    · rw [shape]
      exact row

/-- Two levels down from a record, its values may still be nested. -/
theorem takes_readRecord (distinct : [a.label, b.label, c.label].Nodup)
    (first : Takes (a.read depth) A) (second : Takes (b.read depth) B)
    (third : Takes (c.read depth) C) :
    Takes (readRecord a b c (depth + 1))
      (RecordOf ⟨a.label, A⟩ ⟨b.label, B⟩ ⟨c.label, C⟩) := by
  have members := takes_readMember distinct first second third
  refine takes_of_first (fun {input rest value} => readRecord_eq_ok_iff) ?_ ?_ ?_
  · rintro text ⟨x, y, z⟩ (⟨written, ⟨inside, -, rfl⟩, -⟩ | ⟨u, v, w, ⟨inside, -, rfl⟩, -⟩)
    · exact ⟨_, inside, rfl, rfl, by decide⟩
    · exact ⟨_, inside, rfl, rfl, by decide⟩
  · rintro p input rest ⟨x, y, z⟩ (⟨rfl, found⟩ | ⟨rfl, found⟩)
    · obtain ⟨inside, written, known, folds, rfl⟩ :=
        (members.allMembers_eq_ok_iff Quoted.read_eq_ok_iff).mp found
      obtain ⟨ofFirst, ofSecond, ofThird, others⟩ := folds_recordStep_iff.mp folds
      exact ⟨inside, Or.inl ⟨written, ⟨inside, known, rfl⟩, folds_slot_iff.mp ofFirst,
        folds_slot_iff.mp ofSecond, folds_slot_iff.mp ofThird, others⟩, rfl⟩
    · obtain ⟨inside, u, v, w, known, spelled, spelled', spelled'', rfl⟩ :=
        (readRow_eq_ok_iff first second third).mp found
      exact ⟨inside, Or.inr ⟨u, v, w, ⟨inside, known, rfl⟩, spelled, spelled', spelled''⟩, rfl⟩
  · rintro p later rest ⟨x, y, z⟩ (⟨written, ⟨inside, known, shape⟩, ofFirst, ofSecond, ofThird,
      others⟩ | ⟨u, v, w, ⟨inside, known, shape⟩, spelled, spelled', spelled''⟩) -
    · obtain ⟨rfl, rfl⟩ := List.cons.inj shape
      have folds : Folds (RecordStep ⟨a.label, A⟩ ⟨b.label, B⟩ ⟨c.label, C⟩) written
          ⟨none, none, none⟩ ⟨some x, some y, some z⟩ :=
        folds_recordStep_iff.mpr ⟨folds_slot_iff.mpr ofFirst, folds_slot_iff.mpr ofSecond,
          folds_slot_iff.mpr ofThird, others⟩
      exact Or.inl ⟨rfl, (members.allMembers_eq_ok_iff Quoted.read_eq_ok_iff).mpr
        ⟨later, written, known, folds, rfl⟩⟩
    · obtain ⟨rfl, rfl⟩ := List.cons.inj shape
      exact Or.inr ⟨rfl, (readRow_eq_ok_iff first second third).mpr
        ⟨later, u, v, w, known, spelled, spelled', spelled'', rfl⟩⟩

end

/-! ### Documents -/

theorem readDocument_eq_ok_iff {r : Reader α} (takes : Takes (r maxDepth) lang) :
    readDocument r input = .ok a ↔ Document lang input a := by
  rw [readDocument]
  constructor
  · intro found
    split at found
    · cases found
    next a rest read =>
      split at found
      next blank =>
        cases found
        obtain ⟨gap, text, before, spelled, rfl⟩ := takes.sound read
        exact ⟨gap, text, rest, before, spelled,
          skipBlanks_eq_nil_iff.mp (List.isEmpty_iff.mp blank), rfl⟩
      next => cases found
  · rintro ⟨gap, text, gap', before, spelled, after, rfl⟩
    rw [takes.complete before spelled (ends_of_blank after)]
    simp [skipBlanks_eq_nil_iff.mpr after]

end LeafPaths.Json
