import LeafPaths.Json.Numeral
import LeafPaths.Proofs.Json.Quoted

/-!
How numbers are spelled. Where no one wants the number, the reader takes exactly the sequences of
characters that have its form. A whole number in the range of 64 bits has one spelling only, the
one that is written. What comes after a number must not go on with it.
-/

namespace LeafPaths.Json.Numeral

open Input (ofChars)

/-! ### Spellings -/

def Digits (ds : List Char) : Prop := ds ≠ [] ∧ ∀ d ∈ ds, d.isDigit

/-- A leading zero stands alone. -/
def Units (ds : List Char) : Prop := Digits ds ∧ (ds.head? = some '0' → ds = ['0'])

def Fraction (cs : List Char) : Prop := cs = [] ∨ ∃ ds, Digits ds ∧ cs = '.' :: ds

def Exponent (cs : List Char) : Prop :=
  cs = [] ∨ ∃ e sign ds, (e = 'e' ∨ e = 'E') ∧ (sign = [] ∨ sign = ['-'] ∨ sign = ['+']) ∧
    Digits ds ∧ cs = e :: (sign ++ ds)

def Form (cs : List Char) : Prop :=
  ∃ sign units fraction exponent, (sign = [] ∨ sign = ['-']) ∧ Units units ∧ Fraction fraction ∧
    Exponent exponent ∧ cs = sign ++ (units ++ (fraction ++ exponent))

def goesOn (p : Piece) : Bool := isDigit p || p = .char '.' || p = .char 'e' || p = .char 'E'

/-- A number that stands before the input is at its end. -/
def Ends (rest : Input) : Prop := rest.head?.any goesOn = false

variable {strict negative : Bool} {ds cs : List Char} {c : Char} {input rest : Input} {n : Nat}
  {result : Numeral}

/-! ### What follows -/

def Stops (rest : Input) : Prop := rest.head?.any isDigit = false

theorem Ends.head_ne {p : Piece} (ends : Ends (p :: rest)) :
    isDigit p = false ∧ p ≠ .char '.' ∧ p ≠ .char 'e' ∧ p ≠ .char 'E' := by
  have stops : goesOn p = false := ends
  simpa [goesOn, and_assoc] using stops

theorem Ends.stops (ends : Ends rest) : Stops rest := by
  cases rest with
  | nil => rfl
  | cons p rest => exact ends.head_ne.1

theorem Ends.not_fraction (ends : Ends rest) : rest.head? ≠ some (.char '.') := by
  cases rest with
  | nil => simp
  | cons p rest => exact fun same => ends.head_ne.2.1 (Option.some.inj same)

theorem stops_exponent (exponent : Exponent cs) (ends : Ends rest) :
    Stops (ofChars cs ++ rest) ∧ (ofChars cs ++ rest).head? ≠ some (.char '.') := by
  rcases exponent with rfl | ⟨e, sign, ds, rfl | rfl, -, -, rfl⟩
  · exact ⟨ends.stops, ends.not_fraction⟩
  · exact ⟨rfl, by simp⟩
  · exact ⟨rfl, by simp⟩

theorem stops_fraction {fraction exponent : List Char} (fractional : Fraction fraction)
    (exponential : Exponent exponent) (ends : Ends rest) :
    Stops (ofChars fraction ++ (ofChars exponent ++ rest)) := by
  rcases fractional with rfl | ⟨ds, -, rfl⟩
  · exact (stops_exponent exponential ends).1
  · rfl

/-! ### Digits -/

theorem digits_of_stops (stops : Stops rest) : digits rest = ([], rest) := by
  match rest with
  | [] => rfl
  | .stray byte :: rest => rfl
  | .char c :: rest =>
    have other : c.isDigit = false := stops
    simp [digits, other]

theorem digits_ofChars (all : ∀ d ∈ ds, d.isDigit) (stops : Stops rest) :
    digits (ofChars ds ++ rest) = (ds, rest) := by
  induction ds with
  | nil => exact digits_of_stops stops
  | cons d ds ih =>
    obtain ⟨first, later⟩ := List.forall_mem_cons.mp all
    rw [Input.ofChars_cons, List.cons_append, digits, if_pos first, ih later]

theorem digits_spec (input : Input) :
    (∀ d ∈ (digits input).1, d.isDigit) ∧ input = ofChars (digits input).1 ++ (digits input).2 := by
  fun_induction digits input with
  | case1 c rest digit found ih =>
    exact ⟨List.forall_mem_cons.mpr ⟨digit, ih.1⟩, congrArg (.char c :: ·) ih.2⟩
  | case2 c rest other => simp
  | case3 rest => simp

theorem someDigits_ofChars (strict : Bool) (digits : Digits ds) (stops : Stops rest) :
    someDigits strict (ofChars ds ++ rest) = .ok (ds, rest) := by
  rw [someDigits, digits_ofChars digits.2 stops]
  simp [digits.1]

theorem digits_of_someDigits (found : someDigits strict input = .ok (ds, rest)) :
    Digits ds ∧ input = ofChars ds ++ rest := by
  rw [someDigits] at found
  split at found
  · cases found
  · rename_i nonempty
    have all := digits_spec input
    rw [Except.ok.inj found] at all nonempty
    exact ⟨⟨by simpa using nonempty, all.1⟩, all.2⟩

/-! ### The parts of a number -/

theorem wholePart_ofChars (strict : Bool) (units : Units ds) (stops : Stops rest) :
    wholePart strict (ofChars ds ++ rest) = .ok (ds, rest) := by
  by_cases zero : ds.head? = some '0'
  · obtain rfl := units.2 zero
    have alone : rest.head?.any isDigit = false := stops
    simp [wholePart, alone]
  · rw [wholePart]
    · exact someDigits_ofChars strict units.1 stops
    · intro more found
      cases ds with
      | nil => exact units.1.1 rfl
      | cons d ds => exact zero (congrArg some (Piece.char.inj (List.cons.inj found).1))

theorem units_of_wholePart (found : wholePart strict input = .ok (ds, rest)) :
    Units ds ∧ input = ofChars ds ++ rest := by
  unfold wholePart at found
  split at found
  · split at found
    · cases found
    · cases found
      exact ⟨⟨⟨by simp, by simp⟩, fun _ => rfl⟩, rfl⟩
  · rename_i other
    obtain ⟨digits, rfl⟩ := digits_of_someDigits found
    refine ⟨⟨digits, ?_⟩, rfl⟩
    intro zero
    obtain ⟨later, rfl⟩ := List.head?_eq_some_iff.mp zero
    exact (other _ rfl).elim

theorem exists_fraction? (strict : Bool) {fraction : List Char} (fractional : Fraction fraction)
    (stops : Stops rest) (other : rest.head? ≠ some (.char '.')) :
    ∃ places, fraction? strict (ofChars fraction ++ rest) = .ok (places, rest) := by
  rcases fractional with rfl | ⟨ds, digits, rfl⟩
  · refine ⟨none, ?_⟩
    rw [Input.ofChars_nil, List.nil_append, fraction?]
    rintro more rfl
    exact other rfl
  · refine ⟨some ds, ?_⟩
    rw [Input.ofChars_cons, List.cons_append, fraction?, someDigits_ofChars strict digits stops]
    rfl

theorem fraction_of_fraction? {places : Option (List Char)}
    (found : fraction? strict input = .ok (places, rest)) :
    ∃ cs, Fraction cs ∧ input = ofChars cs ++ rest ∧ (places = none → cs = []) := by
  unfold fraction? at found
  split at found
  · obtain ⟨⟨ds, tail⟩, some_digits, same⟩ := map_eq_ok_iff.mp found
    cases same
    obtain ⟨digits, rfl⟩ := digits_of_someDigits some_digits
    exact ⟨'.' :: ds, Or.inr ⟨ds, digits, rfl⟩, rfl, nofun⟩
  · cases found
    exact ⟨[], Or.inl rfl, rfl, fun _ => rfl⟩

theorem exists_signedDigits (strict : Bool) {sign : List Char}
    (signed : sign = [] ∨ sign = ['-'] ∨ sign = ['+']) (digits : Digits ds) (stops : Stops rest) :
    ∃ k, signedDigits strict (ofChars (sign ++ ds) ++ rest) = .ok (k, rest) := by
  have found := someDigits_ofChars strict digits stops
  rcases signed with rfl | rfl | rfl
  · refine ⟨Text.digitsValue ds, ?_⟩
    have first : ∀ c : Char, c.isDigit = false → ∀ more, ofChars ds ++ rest ≠ .char c :: more := by
      intro c other more same
      cases ds with
      | nil => exact digits.1 rfl
      | cons d ds =>
        obtain rfl := Piece.char.inj (List.cons.inj same).1
        rw [digits.2 d List.mem_cons_self] at other
        cases other
    rw [List.nil_append, signedDigits, found]
    · rfl
    · exact first '-' rfl
    · exact first '+' rfl
  · exact ⟨-Text.digitsValue ds, by simp [signedDigits, found, Except.map]⟩
  · exact ⟨Text.digitsValue ds, by simp [signedDigits, found, Except.map]⟩

theorem digits_of_signedDigits {k : Int} (found : signedDigits strict input = .ok (k, rest)) :
    ∃ sign ds, (sign = [] ∨ sign = ['-'] ∨ sign = ['+']) ∧ Digits ds ∧
      input = ofChars (sign ++ ds) ++ rest := by
  unfold signedDigits at found
  split at found
  all_goals
    obtain ⟨⟨ds, tail⟩, some_digits, same⟩ := map_eq_ok_iff.mp found
    cases same
    obtain ⟨digits, rfl⟩ := digits_of_someDigits some_digits
  · exact ⟨['-'], ds, by simp, digits, rfl⟩
  · exact ⟨['+'], ds, by simp, digits, rfl⟩
  · exact ⟨[], ds, by simp, digits, rfl⟩

theorem exists_exponent? (strict : Bool) (exponential : Exponent cs) (ends : Ends rest) :
    ∃ scale, exponent? strict (ofChars cs ++ rest) = .ok (scale, rest) := by
  rcases exponential with rfl | ⟨e, sign, ds, letter, signed, digits, rfl⟩
  · refine ⟨none, ?_⟩
    rw [Input.ofChars_nil, List.nil_append, exponent?]
    · rintro more rfl
      exact ends.head_ne.2.2.1 rfl
    · rintro more rfl
      exact ends.head_ne.2.2.2 rfl
  · obtain ⟨k, found⟩ := exists_signedDigits strict signed digits ends.stops
    refine ⟨some k, ?_⟩
    rcases letter with rfl | rfl <;>
      rw [Input.ofChars_cons, List.cons_append, exponent?, found] <;> rfl

theorem exponent_of_exponent? {scale : Option Int}
    (found : exponent? strict input = .ok (scale, rest)) :
    ∃ cs, Exponent cs ∧ input = ofChars cs ++ rest ∧ (scale = none → cs = []) := by
  have signed : ∀ {tail : Input} {e : Char}, e = 'e' ∨ e = 'E' →
      ((signedDigits strict tail).map fun found => (some found.1, found.2)) = .ok (scale, rest) →
      ∃ cs, Exponent cs ∧ .char e :: tail = ofChars cs ++ rest ∧ (scale = none → cs = []) := by
    intro tail e letter found
    obtain ⟨⟨k, tail⟩, some_digits, same⟩ := map_eq_ok_iff.mp found
    cases same
    obtain ⟨sign, ds, signed, digits, rfl⟩ := digits_of_signedDigits some_digits
    exact ⟨e :: (sign ++ ds), Or.inr ⟨e, sign, ds, letter, signed, digits, rfl⟩, rfl, nofun⟩
  unfold exponent? at found
  split at found
  · exact signed (Or.inl rfl) found
  · exact signed (Or.inr rfl) found
  · cases found
    exact ⟨[], Or.inl rfl, rfl, fun _ => rfl⟩

/-! ### Numbers of any size -/

theorem Form.exists_eq_cons (form : Form cs) :
    ∃ c more, cs = c :: more ∧ (c = '-' ∨ c.isDigit = true) := by
  obtain ⟨sign, units, fraction, exponent, signed, whole, -, -, rfl⟩ := form
  rcases signed with rfl | rfl
  · obtain ⟨d, ds, rfl⟩ := List.exists_cons_of_ne_nil whole.1.1
    exact ⟨d, _, rfl, Or.inr (whole.1.2 d List.mem_cons_self)⟩
  · exact ⟨'-', _, rfl, Or.inl rfl⟩

theorem exists_parts_of_unsigned (found : unsigned strict negative input = .ok (result, rest)) :
    ∃ units fraction exponent places scale, Units units ∧ Fraction fraction ∧ Exponent exponent ∧
      (places = none → fraction = []) ∧ (scale = none → exponent = []) ∧
      input = ofChars (units ++ (fraction ++ exponent)) ++ rest ∧
      (strict = true → ofParts negative units places scale = some result) := by
  rw [unsigned] at found
  obtain ⟨⟨units, later⟩, first, found⟩ := bind_eq_ok_iff.mp found
  obtain ⟨⟨places, last⟩, second, found⟩ := bind_eq_ok_iff.mp found
  obtain ⟨⟨scale, tail⟩, third, found⟩ := bind_eq_ok_iff.mp found
  dsimp only at first second third found
  have amounts : tail = rest ∧
      (strict = true → ofParts negative units places scale = some result) := by
    split at found
    next value =>
      cases found
      exact ⟨rfl, fun _ => value⟩
    next =>
      split at found
      · cases found
      · rename_i lax
        cases found
        exact ⟨rfl, fun strict => (lax strict).elim⟩
  obtain ⟨rfl, amounts⟩ := amounts
  obtain ⟨whole, rfl⟩ := units_of_wholePart first
  obtain ⟨fraction, fractional, rfl, no_fraction⟩ := fraction_of_fraction? second
  obtain ⟨exponent, exponential, rfl, no_exponent⟩ := exponent_of_exponent? third
  exact ⟨units, fraction, exponent, places, scale, whole, fractional, exponential, no_fraction,
    no_exponent, by simp, amounts⟩

theorem form_of_read (found : read false input = .ok (result, rest)) :
    ∃ cs, Form cs ∧ input = ofChars cs ++ rest := by
  unfold read at found
  split at found
  all_goals
    obtain ⟨units, fraction, exponent, -, -, whole, fractional, exponential, -, -, rfl, -⟩ :=
      exists_parts_of_unsigned found
  · exact ⟨_, ⟨['-'], units, fraction, exponent, Or.inr rfl, whole, fractional, exponential, rfl⟩,
      rfl⟩
  · exact ⟨_, ⟨[], units, fraction, exponent, Or.inl rfl, whole, fractional, exponential, rfl⟩,
      rfl⟩

theorem Units.head_ne (units : Units ds) (input : Input) (other : c.isDigit = false) :
    ∀ more, ofChars ds ++ input ≠ .char c :: more := by
  intro more same
  cases ds with
  | nil => exact units.1.1 rfl
  | cons d ds =>
    obtain rfl := Piece.char.inj (List.cons.inj same).1
    rw [units.1.2 d List.mem_cons_self] at other
    cases other

theorem exists_unsigned {units fraction exponent : List Char} (whole : Units units)
    (fractional : Fraction fraction) (exponential : Exponent exponent) (ends : Ends rest) :
    ∃ result, unsigned false negative (ofChars (units ++ (fraction ++ exponent)) ++ rest) =
      .ok (result, rest) := by
  obtain ⟨stops, other⟩ := stops_exponent exponential ends
  obtain ⟨places, second⟩ := exists_fraction? false fractional stops other
  obtain ⟨scale, third⟩ := exists_exponent? false exponential ends
  have first := wholePart_ofChars false whole
    (stops_fraction fractional exponential ends)
  simp only [unsigned, Input.ofChars_append, List.append_assoc, first, second, third, bind,
    Except.bind]
  split
  · exact ⟨_, rfl⟩
  · exact ⟨_, rfl⟩

theorem exists_read_of_form (form : Form cs) (ends : Ends rest) :
    ∃ result, read false (ofChars cs ++ rest) = .ok (result, rest) := by
  obtain ⟨sign, units, fraction, exponent, signed, whole, fractional, exponential, rfl⟩ := form
  have found : ∀ negative, ∃ result, unsigned false negative
      (ofChars (units ++ (fraction ++ exponent)) ++ rest) = .ok (result, rest) :=
    fun negative => exists_unsigned whole fractional exponential ends
  rcases signed with rfl | rfl
  · rw [List.nil_append, read]
    · exact found false
    · intro more same
      rw [Input.ofChars_append, List.append_assoc] at same
      exact whole.head_ne _ (by decide) more same
  · exact found true

/-! ### Whole numbers -/

theorem isDigit_of_mem_toDigits (member : c ∈ Nat.toDigits 10 n) : c.isDigit :=
  Nat.isDigit_of_mem_toDigits (by decide) (by decide) member

theorem exists_toDigits_eq_cons (n : Nat) :
    ∃ d ds, Nat.toDigits 10 n = d :: ds ∧ d.isDigit = true := by
  obtain ⟨d, ds, shape⟩ := List.exists_cons_of_ne_nil (Nat.toDigits_ne_nil (n := n) (b := 10))
  refine ⟨d, ds, shape, isDigit_of_mem_toDigits (n := n) ?_⟩
  rw [shape]
  exact List.mem_cons_self

theorem exists_numeral_eq_cons (k : Int) :
    ∃ c cs, numeral k = c :: cs ∧ (c = '-' ∨ c.isDigit = true) := by
  cases k with
  | ofNat n =>
    obtain ⟨d, ds, shape, digit⟩ := exists_toDigits_eq_cons n
    exact ⟨d, ds, shape, Or.inr digit⟩
  | negSucc n => exact ⟨'-', _, rfl, Or.inl rfl⟩

/-- The first digit is a zero in the numeral of zero only. -/
theorem head?_toDigits_ne_zero (positive : 0 < n) : (Nat.toDigits 10 n).head? ≠ some '0' := by
  -- On the number without its last digit, which has the same first digit.
  induction n using Nat.strongRecOn with
  | ind n ih =>
    rw [Nat.toDigits_eq_if (by decide)]
    split
    next small =>
      have nonzero : ∀ d < 10, 0 < d → [Nat.digitChar d].head? ≠ some '0' := by decide
      exact nonzero n small positive
    next =>
      have shorter := ih (n / 10) (by omega) (by omega)
      obtain ⟨d, ds, shape, -⟩ := exists_toDigits_eq_cons (n / 10)
      rw [shape] at shorter ⊢
      exact shorter

theorem units_toDigits (n : Nat) : Units (Nat.toDigits 10 n) := by
  refine ⟨⟨Nat.toDigits_ne_nil, fun c => isDigit_of_mem_toDigits⟩, ?_⟩
  intro zero
  rcases Nat.eq_zero_or_pos n with rfl | positive
  · rfl
  · exact (head?_toDigits_ne_zero positive zero).elim

theorem digit_cases (digit : c.isDigit) :
    ∃ d < 10, c = Nat.digitChar d ∧ c.toNat - '0'.toNat = d := by
  have range : '0' ≤ c ∧ c ≤ '9' := by simpa [Char.isDigit, Char.le_def] using digit
  obtain ⟨d, rfl, value, le⟩ := Quoted.eq_ofNat_add range.1 range.2
  have table : ∀ d ≤ 9, Char.ofNat ('0'.toNat + d) = Nat.digitChar d := by decide
  exact ⟨d, Nat.lt_succ_of_le le, table d le, value⟩

theorem toDigits_ofDigitChars (positive : 0 < n) (all : ∀ d ∈ ds, d.isDigit) :
    Nat.toDigits 10 (Nat.ofDigitChars 10 ds n) = Nat.toDigits 10 n ++ ds := by
  induction ds generalizing n with
  | nil => simp
  | cons c ds ih =>
    obtain ⟨first, later⟩ := List.forall_mem_cons.mp all
    obtain ⟨d, small, rfl, value⟩ := digit_cases first
    rw [Nat.ofDigitChars_cons, value, ih (by omega) later,
      ← Nat.toDigits_append_toDigits (by decide) positive small, Nat.toDigits_of_lt_base small]
    simp

/-- Only one sequence of digits of this form has a value. -/
theorem Units.eq_toDigits (units : Units ds) : ds = Nat.toDigits 10 (Text.digitsValue ds) := by
  cases ds with
  | nil => exact (units.1.1 rfl).elim
  | cons c ds =>
    obtain ⟨first, later⟩ := List.forall_mem_cons.mp units.1.2
    obtain ⟨d, small, rfl, value⟩ := digit_cases first
    rcases Nat.eq_zero_or_pos d with rfl | positive
    · rw [units.2 rfl]
      rfl
    · rw [Text.digitsValue, Nat.ofDigitChars_cons, value, Nat.mul_zero, Nat.zero_add,
        toDigits_ofDigitChars positive later, Nat.toDigits_of_lt_base small]
      rfl

theorem ofParts_positive (small : n < UInt64.size) :
    ofParts false (Nat.toDigits 10 n) none none = some (.whole n) := by
  simp [ofParts, Text.digitsValue_toDigits, small]

theorem ofParts_negative (positive : 0 < n) (inRange : Int64.minValue.toInt ≤ -(n : Int)) :
    ofParts true (Nat.toDigits 10 n) none none = some (.whole (-n)) := by
  have least : Int64.minValue.toInt = -9223372036854775808 := rfl
  have bounded : (n : Int) ≤ 9223372036854775808 := by omega
  simp [ofParts, Text.digitsValue_toDigits, bounded, Nat.ne_of_gt positive]

theorem whole_of_ofParts {units : List Char} {places : Option (List Char)} {scale : Option Int}
    {k : Int} (amounts : ofParts negative units places scale = some (.whole k)) :
    places = none ∧ scale = none ∧
      (negative = false ∧ k = Text.digitsValue units ∧ k < UInt64.size ∨
        negative = true ∧ 0 < Text.digitsValue units ∧ k = -Text.digitsValue units ∧
          Int64.minValue.toInt ≤ k) := by
  rw [ofParts] at amounts
  dsimp only at amounts
  split at amounts
  next plain =>
    cases amounts
    simp only [Bool.and_eq_true, Option.isNone_iff_eq_none, Bool.not_eq_true',
      decide_eq_true_eq] at plain
    obtain ⟨⟨⟨noPlaces, noScale⟩, positive⟩, small⟩ := plain
    exact ⟨noPlaces, noScale, Or.inl ⟨positive, rfl, Int.ofNat_lt.mpr small⟩⟩
  split at amounts
  next signed =>
    cases amounts
    simp only [Bool.and_eq_true, Option.isNone_iff_eq_none, decide_eq_true_eq] at signed
    obtain ⟨⟨⟨⟨noPlaces, noScale⟩, negative⟩, nonzero⟩, low⟩ := signed
    exact ⟨noPlaces, noScale, Or.inr ⟨negative, Nat.pos_of_ne_zero nonzero, rfl, low⟩⟩
  next =>
    split at amounts
    · cases amounts
    · cases amounts

theorem unsigned_toDigits (ends : Ends rest)
    (amounts : ofParts negative (Nat.toDigits 10 n) none none = some result) :
    unsigned strict negative (ofChars (Nat.toDigits 10 n) ++ rest) = .ok (result, rest) := by
  have second : fraction? strict rest = .ok (none, rest) := by
    rw [fraction?]
    rintro more rfl
    exact ends.head_ne.2.1 rfl
  have third : exponent? strict rest = .ok (none, rest) := by
    rw [exponent?]
    · rintro more rfl
      exact ends.head_ne.2.2.1 rfl
    · rintro more rfl
      exact ends.head_ne.2.2.2 rfl
  simp only [unsigned, wholePart_ofChars strict (units_toDigits n) ends.stops, second, third, bind,
    Except.bind, amounts]

/-- The range is that of the signed and the unsigned words of 64 bits together. -/
theorem read_numeral {k : Int} (low : Int64.minValue.toInt ≤ k) (high : k < UInt64.size)
    (ends : Ends rest) : read strict (ofChars (numeral k) ++ rest) = .ok (.whole k, rest) := by
  cases k with
  | ofNat n =>
    have small : n < UInt64.size := Int.ofNat_lt.mp high
    rw [numeral, read]
    · exact unsigned_toDigits ends (ofParts_positive small)
    · exact (units_toDigits n).head_ne rest (by decide)
  | negSucc n =>
    exact unsigned_toDigits ends (ofParts_negative (Nat.succ_pos n) low)

/-- Nothing else is read as the number. -/
theorem eq_numeral_of_read {k : Int} (found : read true input = .ok (.whole k, rest)) :
    Int64.minValue.toInt ≤ k ∧ k < UInt64.size ∧ input = ofChars (numeral k) ++ rest := by
  unfold read at found
  split at found
  all_goals
    obtain ⟨units, fraction, exponent, places, scale, whole, -, -, no_fraction, no_exponent, rfl,
      amounts⟩ := exists_parts_of_unsigned found
    obtain ⟨plain, unscaled, value⟩ := whole_of_ofParts (amounts rfl)
    obtain rfl := no_fraction plain
    obtain rfl := no_exponent unscaled
  · obtain ⟨impossible, -⟩ | ⟨-, positive, rfl, low⟩ := value
    · cases impossible
    · obtain ⟨n, same⟩ := Nat.exists_eq_add_one_of_ne_zero (Nat.ne_of_gt positive)
      have digits := whole.eq_toDigits
      rw [same] at digits low ⊢
      have below : -((n + 1 : Nat) : Int) < 0 := Int.neg_neg_of_pos (Int.natCast_pos.mpr n.succ_pos)
      refine ⟨low, Int.lt_trans below (by decide), ?_⟩
      rw [show -((n + 1 : Nat) : Int) = .negSucc n from rfl, numeral, ← digits]
      simp
  · obtain ⟨-, rfl, high⟩ | ⟨impossible, -⟩ := value
    · refine ⟨Int.le_trans (by decide) (Int.natCast_nonneg _), high, ?_⟩
      rw [show (Text.digitsValue units : Int) = .ofNat (Text.digitsValue units) from rfl, numeral,
        ← whole.eq_toDigits]
      simp
    · cases impossible

end LeafPaths.Json.Numeral
