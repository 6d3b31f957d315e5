import Mathlib.Data.List.Forall2
import LeafPaths.Json
import LeafPaths.Json.Quoted

/-!
How text is spelled between quotes. A strict reader takes exactly the spellings of a text, among
them the one that is written; a lax one also passes over stray bytes and over surrogates that
belong to no pair.
-/

namespace LeafPaths.Json

def Input.ofChars (cs : List Char) : Input := cs.map .char

@[simp] theorem Input.ofChars_nil : Input.ofChars [] = [] := rfl

@[simp] theorem Input.ofChars_cons (c : Char) (cs : List Char) :
    Input.ofChars (c :: cs) = .char c :: Input.ofChars cs := rfl

@[simp] theorem Input.ofChars_append (cs ds : List Char) :
    Input.ofChars (cs ++ ds) = Input.ofChars cs ++ Input.ofChars ds := List.map_append

theorem map_eq_ok_iff {ε α β : Type} {found : Except ε α} {f : α → β} {b : β} :
    found.map f = .ok b ↔ ∃ a, found = .ok a ∧ f a = b := by
  cases found <;> simp [Except.map]

theorem bind_eq_ok_iff {ε α β : Type} {found : Except ε α} {f : α → Except ε β} {b : β} :
    found >>= f = .ok b ↔ ∃ a, found = .ok a ∧ f a = .ok b := by
  cases found <;> simp [bind, Except.bind]

namespace Quoted

open Input (ofChars)

/-! ### Spellings -/

def letters : List (Char × Char) :=
  [('"', '"'), ('\\', '\\'), ('/', '/'), ('b', '\x08'), ('f', '\x0c'), ('n', '\n'), ('r', '\r'),
    ('t', '\t')]

def HexDigit (c : Char) (d : Nat) : Prop :=
  (c, d) ∈ "0123456789abcdef".toList.zipIdx ∨ (c, d) ∈ "0123456789ABCDEF".toList.zipIdx

/-- Four digits, the most significant first. -/
def CodeUnit (cs : List Char) (u : Nat) : Prop :=
  ∃ ds, List.Forall₂ HexDigit cs ds ∧ ds.length = 4 ∧ u = ds.foldl (fun u d => 16 * u + d) 0

inductive Part : (strict : Bool) → Input → List Char → Prop where
  | plain {strict : Bool} {c : Char} (visible : 0x20 ≤ c.toNat) (quote : c ≠ '"')
      (backslash : c ≠ '\\') : Part strict [.char c] [c]
  | letter {strict : Bool} {l c : Char} (known : (l, c) ∈ letters) :
      Part strict (ofChars ['\\', l]) [c]
  | unit {ds : List Char} {c : Char} (unit : CodeUnit ds c.toNat) :
      Part true (ofChars ('\\' :: 'u' :: ds)) [c]
  | pair {ds ds' : List Char} {high low : Nat} {c : Char} (leading : CodeUnit ds high)
      (trailing : CodeUnit ds' low) (upper : 0xD800 ≤ high ∧ high ≤ 0xDBFF)
      (lower : 0xDC00 ≤ low ∧ low ≤ 0xDFFF)
      (value : c.toNat = 0x10000 + (high - 0xD800) * 0x400 + (low - 0xDC00)) :
      Part true (ofChars ('\\' :: 'u' :: (ds ++ '\\' :: 'u' :: ds'))) [c]
  | passed {ds : List Char} {u : Nat} (unit : CodeUnit ds u) :
      Part false (ofChars ('\\' :: 'u' :: ds)) []
  | stray (byte : UInt8) : Part false [.stray byte] []

inductive Parts (strict : Bool) : Input → List Char → Prop where
  | nil : Parts strict [] []
  | cons {text later : Input} {cs more : List Char} (part : Part strict text cs)
      (parts : Parts strict later more) : Parts strict (text ++ later) (cs ++ more)

/-- What stands behind an opening quote, up to and with the closing one. -/
def Spells (text : Input) (s : String) : Prop :=
  ∃ inside, Parts true inside s.toList ∧ text = inside ++ [.char '"']

/-- The same where no one wants the text. -/
def Passes (text : Input) : Prop :=
  ∃ inside cs, Parts false inside cs ∧ text = inside ++ [.char '"']

variable {strict clean : Bool} {state next : State} {c d : Char} {cs ds all : List Char}
  {high : Option Nat} {left value u : Nat} {text rest input : Input}

/-! ### Turns of the reader -/

def prepend (cs : List Char) (found : Result (List Char)) : Result (List Char) :=
  found.map fun f => (cs ++ f.1, f.2)

theorem prepend_nil (found : Result (List Char)) : prepend [] found = found := by
  cases found <;> rfl

theorem prepend_eq_ok_iff {found : Result (List Char)} :
    prepend cs found = .ok (all, rest) ↔ ∃ more, found = .ok (more, rest) ∧ all = cs ++ more := by
  cases found with
  | error fault => simp [prepend, Except.map]
  | ok f =>
    obtain ⟨more, rest'⟩ := f
    constructor
    · rintro ⟨⟩
      exact ⟨more, rfl, rfl⟩
    · rintro ⟨_, ⟨⟩, rfl⟩
      rfl

theorem body_char (inside : ¬ (state = .plain ∧ c = '"'))
    (stepped : step strict state c rest = .ok (next, cs)) :
    body strict state clean (.char c :: rest) = prepend cs (body strict next clean rest) := by
  rw [body, if_neg inside, stepped]
  dsimp only
  cases body strict next clean rest <;> rfl

theorem exists_step (inside : ¬ (state = .plain ∧ c = '"'))
    (found : body strict state clean (.char c :: rest) = .ok (all, input)) :
    ∃ next cs, step strict state c rest = .ok (next, cs) ∧
      prepend cs (body strict next clean rest) = .ok (all, input) := by
  cases stepped : step strict state c rest with
  | error fault =>
    rw [body, if_neg inside, stepped] at found
    cases found
  | ok result => exact ⟨_, _, rfl, body_char inside stepped ▸ found⟩

/-- Only in plain text there may be a stray byte. -/
theorem exists_char (within : state ≠ .plain)
    (found : body strict state clean input = .ok (all, rest)) :
    ∃ c tail next cs, input = .char c :: tail ∧ step strict state c tail = .ok (next, cs) ∧
      prepend cs (body strict next clean tail) = .ok (all, rest) := by
  match input with
  | [] => cases found
  | .stray byte :: tail =>
    rw [body, if_neg within] at found
    cases found
  | .char c :: tail =>
    obtain ⟨next, cs, stepped, later⟩ := exists_step (fun plain => within plain.1) found
    exact ⟨c, tail, next, cs, rfl, stepped, later⟩

/-- A strict reader does not forget a stray byte. -/
theorem clean_of_body (found : body true state clean input = .ok (all, rest)) : clean = true := by
  induction input generalizing state clean all with
  | nil => cases found
  | cons p tail ih =>
    cases p with
    | stray byte =>
      rw [body] at found
      split at found
      · cases ih found
      · cases found
    | char c =>
      by_cases inside : state = .plain ∧ c = '"'
      · rw [body, if_pos inside] at found
        cases clean with
        | true => rfl
        | false => cases found
      · obtain ⟨next, cs, -, later⟩ := exists_step inside found
        obtain ⟨more, later, -⟩ := prepend_eq_ok_iff.mp later
        exact ih later

/-- A lax one does not look for it. -/
theorem body_lax (state : State) (clean : Bool) (input : Input) :
    body false state clean input = body false state true input := by
  induction input generalizing state clean with
  | nil => rfl
  | cons p tail ih =>
    cases p with
    | stray byte => rw [body, body]
    | char c =>
      rw [body, body]
      simp only [ih _ clean]
      simp

/-! ### Units -/

theorem eq_ofNat_add {first last : Char} (low : first ≤ c) (up : c ≤ last) :
    ∃ n, c = Char.ofNat (first.toNat + n) ∧ c.toNat - first.toNat = n ∧
      n ≤ last.toNat - first.toNat := by
  have low : first.toNat ≤ c.toNat := low
  have up : c.toNat ≤ last.toNat := up
  refine ⟨c.toNat - first.toNat, ?_, rfl, Nat.sub_le_sub_right up _⟩
  rw [Nat.add_sub_cancel' low, Char.ofNat_toNat]

theorem hexDigit?_eq_some_iff {d : Nat} : hexDigit? c = some d ↔ HexDigit c d := by
  constructor
  · intro found
    have decimal : ∀ n ≤ 9, HexDigit (Char.ofNat ('0'.toNat + n)) n := by
      unfold HexDigit
      decide
    have small : ∀ n ≤ 5, HexDigit (Char.ofNat ('a'.toNat + n)) (n + 10) := by
      unfold HexDigit
      decide
    have capital : ∀ n ≤ 5, HexDigit (Char.ofNat ('A'.toNat + n)) (n + 10) := by
      unfold HexDigit
      decide
    rw [hexDigit?] at found
    split at found
    next range =>
      obtain ⟨n, rfl, value, le⟩ := eq_ofNat_add range.1 range.2
      rw [value] at found
      exact Option.some.inj found ▸ decimal n le
    split at found
    next range =>
      obtain ⟨n, rfl, value, le⟩ := eq_ofNat_add range.1 range.2
      rw [value] at found
      exact Option.some.inj found ▸ small n le
    split at found
    next range =>
      obtain ⟨n, rfl, value, le⟩ := eq_ofNat_add range.1 range.2
      rw [value] at found
      exact Option.some.inj found ▸ capital n le
    next => cases found
  · have known : ∀ digit ∈ "0123456789abcdef".toList.zipIdx ++ "0123456789ABCDEF".toList.zipIdx,
        hexDigit? digit.1 = some digit.2 := by decide
    intro digit
    exact known (c, d) (List.mem_append.mpr digit)

/-- The reader behind the last digit of a unit. -/
def afterUnit (strict : Bool) (high : Option Nat) (u : Nat) (clean : Bool) (rest : Input) :
    Result (List Char) :=
  match finishUnit strict high u with
  | .error fault => .error fault
  | .ok (next, cs) => prepend cs (body strict next clean rest)

theorem body_lastDigit {d : Nat} (digit : HexDigit c d) :
    body strict (.unit high 1 value) clean (.char c :: rest) =
      afterUnit strict high (16 * value + d) clean rest := by
  have stepped : step strict (.unit high 1 value) c rest =
      finishUnit strict high (16 * value + d) := by
    rw [step, hexDigit?_eq_some_iff.mpr digit]
    rfl
  rw [afterUnit, body, if_neg (by simp), stepped]
  cases finishUnit strict high (16 * value + d) with
  | error fault => rfl
  | ok result => dsimp only; cases body strict result.1 clean rest <;> rfl

theorem body_digit {d : Nat} (digit : HexDigit c d) (more : 1 < left) :
    body strict (.unit high left value) clean (.char c :: rest) =
      body strict (.unit high (left - 1) (16 * value + d)) clean rest := by
  have stepped : step strict (.unit high left value) c rest =
      .ok (.unit high (left - 1) (16 * value + d), []) := by
    rw [step, hexDigit?_eq_some_iff.mpr digit]
    exact if_neg (Nat.not_le_of_lt more)
  rw [body_char (by simp) stepped, prepend_nil]

theorem body_digits {values : List Nat} (digits : List.Forall₂ HexDigit cs values)
    (length : values.length = left + 1) :
    body strict (.unit high (left + 1) value) clean (ofChars cs ++ rest) =
      afterUnit strict high (values.foldl (fun u d => 16 * u + d) value) clean rest := by
  induction digits generalizing left value with
  | nil => cases length
  | cons digit digits ih =>
    rw [List.foldl_cons, Input.ofChars_cons, List.cons_append]
    cases left with
    | zero =>
      obtain rfl := List.length_eq_zero_iff.mp (Nat.succ.inj length)
      cases digits
      exact body_lastDigit digit
    | succ left => rw [body_digit digit (by omega), ← ih (Nat.succ.inj length), Nat.add_sub_cancel]

theorem exists_digits
    (found : body strict (.unit high (left + 1) value) clean input = .ok (all, rest)) :
    ∃ cs values tail, input = ofChars cs ++ tail ∧ List.Forall₂ HexDigit cs values ∧
      values.length = left + 1 ∧
      afterUnit strict high (values.foldl (fun u d => 16 * u + d) value) clean tail =
        .ok (all, rest) := by
  induction left generalizing value input with
  | zero =>
    obtain ⟨c, tail, _, _, rfl, stepped, -⟩ := exists_char (by simp) found
    rw [step] at stepped
    split at stepped
    next d digit =>
      have digit := hexDigit?_eq_some_iff.mp digit
      rw [body_lastDigit digit] at found
      exact ⟨[c], [d], tail, rfl, .cons digit .nil, rfl, found⟩
    next => cases stepped
  | succ left ih =>
    obtain ⟨c, tail, _, _, rfl, stepped, -⟩ := exists_char (by simp) found
    rw [step] at stepped
    split at stepped
    next d digit =>
      have digit := hexDigit?_eq_some_iff.mp digit
      rw [body_digit digit (by omega)] at found
      obtain ⟨cs, values, tail, rfl, digits, length, after⟩ := ih found
      exact ⟨c :: cs, d :: values, tail, rfl, .cons digit digits, congrArg (· + 1) length, after⟩
    next => cases stepped

theorem hasBytes_ofChars {n : Nat} (enough : n ≤ cs.length) :
    (ofChars cs ++ rest).hasBytes n = true := by
  induction cs generalizing n with
  | nil =>
    obtain rfl := Nat.le_zero.mp enough
    rw [Input.hasBytes]
  | cons c cs ih =>
    cases n with
    | zero => rw [Input.hasBytes]
    | succ n =>
      have size := c.utf8Size_pos
      rw [List.length_cons] at enough
      exact ih (by omega)

theorem beginUnit_of_codeUnit (unit : CodeUnit cs u) :
    beginUnit high (ofChars cs ++ rest) = .ok (.unit high 4 0, []) := by
  obtain ⟨values, digits, length, -⟩ := unit
  have enough : 4 ≤ cs.length := Nat.le_of_eq (length.symm.trans digits.length_eq.symm)
  rw [beginUnit, if_pos (hasBytes_ofChars enough)]

theorem body_codeUnit (unit : CodeUnit cs u) :
    body strict (.unit high 4 0) clean (ofChars cs ++ rest) =
      afterUnit strict high u clean rest := by
  obtain ⟨values, digits, length, rfl⟩ := unit
  exact body_digits digits length

theorem exists_codeUnit (found : body strict (.unit high 4 0) clean input = .ok (all, rest)) :
    ∃ cs u tail, input = ofChars cs ++ tail ∧ CodeUnit cs u ∧
      afterUnit strict high u clean tail = .ok (all, rest) := by
  obtain ⟨cs, values, tail, rfl, digits, length, after⟩ := exists_digits found
  exact ⟨cs, _, tail, rfl, ⟨values, digits, length, rfl⟩, after⟩

theorem HexDigit.lt {d : Nat} (digit : HexDigit c d) : d < 16 := by
  have small : ∀ digit ∈ "0123456789abcdef".toList.zipIdx ++ "0123456789ABCDEF".toList.zipIdx,
      digit.2 < 16 := by decide
  exact small (c, d) (List.mem_append.mpr digit)

theorem CodeUnit.lt (unit : CodeUnit cs u) : u < 0x10000 := by
  obtain ⟨values, digits, length, rfl⟩ := unit
  match values, length, digits with
  | [_, _, _, _], _, .cons first (.cons second (.cons third (.cons fourth .nil))) =>
    have := first.lt
    have := second.lt
    have := third.lt
    have := fourth.lt
    simp only [List.foldl_cons, List.foldl_nil]
    omega

theorem toNat_ofNat (value : u < 0xD800 ∨ 0xDFFF < u ∧ u < 0x110000) :
    (Char.ofNat u).toNat = u := by
  have valid : u.isValidChar := value
  rw [Char.ofNat, dif_pos valid]
  rfl

theorem isTrailing_iff : isTrailing u = true ↔ 0xDC00 ≤ u ∧ u ≤ 0xDFFF := by
  simp [isTrailing]

theorem isLeading_iff : isLeading u = true ↔ 0xD800 ≤ u ∧ u ≤ 0xDBFF := by
  simp [isLeading]

theorem finishUnit_char (c : Char) : finishUnit true none c.toNat = .ok (.plain, [c]) := by
  have value : c.toNat < 0xD800 ∨ 0xDFFF < c.toNat ∧ c.toNat < 0x110000 := c.valid
  have noTrail : isTrailing c.toNat = false := by
    rw [Bool.eq_false_iff, ne_eq, isTrailing_iff]
    omega
  have noLead : isLeading c.toNat = false := by
    rw [Bool.eq_false_iff, ne_eq, isLeading_iff]
    omega
  simp [finishUnit, noTrail, noLead, Char.ofNat_toNat]

/-! ### Parts -/

theorem body_backslash :
    body strict .plain clean (.char '\\' :: rest) = body strict .escaped clean rest := by
  have opened : step strict .plain '\\' rest = .ok (.escaped, []) := rfl
  rw [body_char (by decide) opened, prepend_nil]

theorem body_letter (known : (d, c) ∈ letters) :
    body strict .plain clean (ofChars ['\\', d] ++ rest) =
      prepend [c] (body strict .plain clean rest) := by
  have table : ∀ entry ∈ letters, entry.1 ≠ 'u' ∧ unescape? entry.1 = some entry.2 := by decide
  obtain ⟨unicode, meant⟩ := table (d, c) known
  have closed : step strict .escaped d rest = .ok (.plain, [c]) := by
    rw [step, if_neg unicode, meant]
  exact body_backslash.trans (body_char (by simp) closed)

theorem body_unit (unit : CodeUnit ds u) :
    body strict .plain clean (ofChars ('\\' :: 'u' :: ds) ++ rest) =
      afterUnit strict none u clean rest := by
  have begun : step strict .escaped 'u' (ofChars ds ++ rest) = .ok (.unit none 4 0, []) := by
    rw [step, if_pos rfl, beginUnit_of_codeUnit unit]
  calc body strict .plain clean (ofChars ('\\' :: 'u' :: ds) ++ rest)
      = body strict .escaped clean (.char 'u' :: (ofChars ds ++ rest)) := body_backslash
    _ = body strict (.unit none 4 0) clean (ofChars ds ++ rest) := by
        rw [body_char (by simp) begun, prepend_nil]
    _ = afterUnit strict none u clean rest := body_codeUnit unit

theorem body_paired {high : Nat} (unit : CodeUnit ds u) :
    body true (.paired high) clean (ofChars ('\\' :: 'u' :: ds) ++ rest) =
      afterUnit true (some high) u clean rest := by
  have opened : step true (.paired high) '\\' (.char 'u' :: (ofChars ds ++ rest)) =
      .ok (.pairedEscape high, []) := rfl
  have begun : step true (.pairedEscape high) 'u' (ofChars ds ++ rest) =
      .ok (.unit (some high) 4 0, []) := by
    rw [step, if_pos rfl, beginUnit_of_codeUnit unit]
  calc body true (.paired high) clean (ofChars ('\\' :: 'u' :: ds) ++ rest)
      = body true (.pairedEscape high) clean (.char 'u' :: (ofChars ds ++ rest)) := by
        rw [Input.ofChars_cons, Input.ofChars_cons, List.cons_append, List.cons_append,
          body_char (by simp) opened, prepend_nil]
    _ = body true (.unit (some high) 4 0) clean (ofChars ds ++ rest) := by
        rw [body_char (by simp) begun, prepend_nil]
    _ = afterUnit true (some high) u clean rest := body_codeUnit unit

/-- A part takes the reader from plain text to plain text. -/
theorem body_part (part : Part strict text cs) (rest : Input) :
    body strict .plain true (text ++ rest) = prepend cs (body strict .plain true rest) := by
  cases part with
  | @plain _ c visible quote backslash =>
    have kept : step strict .plain c rest = .ok (.plain, [c]) := by
      rw [step, if_neg backslash, if_neg (Nat.not_lt.mpr visible)]
    exact body_char (fun inside => quote inside.2) kept
  | letter known => exact body_letter known
  | @unit ds c unit => rw [body_unit unit, afterUnit, finishUnit_char]
  | @pair ds ds' high low c leading trailing upper lower value =>
    have noTrail : isTrailing high = false := by
      rw [Bool.eq_false_iff, ne_eq, isTrailing_iff]
      omega
    have first : finishUnit true none high = .ok (.paired high, []) := by
      simp [finishUnit, noTrail, isLeading_iff.mpr upper]
    have second : finishUnit true (some high) low = .ok (.plain, [c]) := by
      simp [finishUnit, isTrailing_iff.mpr lower, combine, ← value, Char.ofNat_toNat]
    have split : ofChars ('\\' :: 'u' :: (ds ++ '\\' :: 'u' :: ds')) ++ rest =
        ofChars ('\\' :: 'u' :: ds) ++ (ofChars ('\\' :: 'u' :: ds') ++ rest) := by
      simp
    rw [split, body_unit leading, afterUnit, first]
    dsimp only
    rw [prepend_nil, body_paired trailing, afterUnit, second]
  | passed unit => rw [body_unit unit, afterUnit]; rfl
  | stray byte =>
    rw [List.singleton_append, body, if_pos rfl, body_lax, prepend_nil]

theorem exists_codeUnit_of_begun (begun : beginUnit high input = .ok (next, cs))
    (later : prepend cs (body strict next clean input) = .ok (all, rest)) :
    ∃ ds u tail, input = ofChars ds ++ tail ∧ CodeUnit ds u ∧
      afterUnit strict high u clean tail = .ok (all, rest) := by
  rw [beginUnit] at begun
  split at begun
  · cases begun
    rw [prepend_nil] at later
    exact exists_codeUnit later
  · cases begun

theorem exists_finished (after : afterUnit strict high u clean input = .ok (all, rest)) :
    ∃ next cs, finishUnit strict high u = .ok (next, cs) ∧
      prepend cs (body strict next clean input) = .ok (all, rest) := by
  rw [afterUnit] at after
  split at after
  · cases after
  next next cs finished => exact ⟨next, cs, finished, after⟩

/-- A trailing surrogate is refused, and a leading one begins a pair. -/
theorem finishUnit_cases (unit : CodeUnit ds u) (finished : finishUnit true none u = .ok (next, cs)) :
    ((0xD800 ≤ u ∧ u ≤ 0xDBFF) ∧ next = .paired u ∧ cs = []) ∨
      ∃ c : Char, u = c.toNat ∧ next = .plain ∧ cs = [c] := by
  have small := unit.lt
  simp only [finishUnit, Bool.not_true, Bool.false_eq_true, if_false] at finished
  split at finished
  · cases finished
  next trail =>
    split at finished
    next lead =>
      cases finished
      exact Or.inl ⟨isLeading_iff.mp lead, rfl, rfl⟩
    next lead =>
      cases finished
      rw [isTrailing_iff] at trail
      rw [isLeading_iff] at lead
      exact Or.inr ⟨_, (toNat_ofNat (by omega)).symm, rfl, rfl⟩

theorem finishUnit_some_eq_ok_iff {high : Nat} :
    finishUnit true (some high) u = .ok (next, cs) ↔
      (0xDC00 ≤ u ∧ u ≤ 0xDFFF) ∧ next = .plain ∧ cs = [combine high u] := by
  rw [← isTrailing_iff]
  simp only [finishUnit, Bool.not_true, Bool.false_eq_true, if_false]
  cases isTrailing u <;> simp [eq_comm]

theorem exists_pair {high : Nat} (leading : CodeUnit ds high)
    (upper : 0xD800 ≤ high ∧ high ≤ 0xDBFF)
    (found : body true (.paired high) true input = .ok (all, rest)) :
    ∃ text cs tail more, Part true text cs ∧
      ofChars ('\\' :: 'u' :: ds) ++ input = text ++ tail ∧
      body true .plain true tail = .ok (more, rest) ∧ all = cs ++ more := by
  obtain ⟨c, tail, next, cs, rfl, stepped, later⟩ := exists_char (by simp) found
  rw [step] at stepped
  split at stepped
  case isFalse => cases stepped
  rename_i backslash
  cases stepped
  rw [prepend_nil] at later
  obtain ⟨d, tail, next, cs, rfl, begun, later⟩ := exists_char (by simp) later
  rw [step] at begun
  split at begun
  case isFalse => cases begun
  rename_i unicode
  obtain ⟨ds', low, tail, rfl, trailing, after⟩ := exists_codeUnit_of_begun begun later
  obtain ⟨_, _, finished, later⟩ := exists_finished after
  obtain ⟨lower, rfl, rfl⟩ := finishUnit_some_eq_ok_iff.mp finished
  obtain ⟨more, plain, same⟩ := prepend_eq_ok_iff.mp later
  refine ⟨_, _, tail, more, .pair leading trailing upper lower ?_, ?_, plain, same⟩
  · exact toNat_ofNat (by omega)
  · rw [backslash, unicode]
    simp

theorem exists_part_of_unit (unit : CodeUnit ds u)
    (after : afterUnit strict none u true input = .ok (all, rest)) :
    ∃ text cs tail more, Part strict text cs ∧
      ofChars ('\\' :: 'u' :: ds) ++ input = text ++ tail ∧
      body strict .plain true tail = .ok (more, rest) ∧ all = cs ++ more := by
  obtain ⟨_, _, finished, later⟩ := exists_finished after
  cases strict with
  | false =>
    cases finished
    obtain ⟨more, plain, same⟩ := prepend_eq_ok_iff.mp later
    exact ⟨_, _, input, more, .passed unit, rfl, plain, same⟩
  | true =>
    rcases finishUnit_cases unit finished with ⟨upper, rfl, rfl⟩ | ⟨c, rfl, rfl, rfl⟩
    · rw [prepend_nil] at later
      exact exists_pair unit upper later
    · obtain ⟨more, plain, same⟩ := prepend_eq_ok_iff.mp later
      exact ⟨_, _, input, more, .unit unit, rfl, plain, same⟩

theorem exists_part_of_escape (found : body strict .escaped true input = .ok (all, rest)) :
    ∃ text cs tail more, Part strict text cs ∧ .char '\\' :: input = text ++ tail ∧
      body strict .plain true tail = .ok (more, rest) ∧ all = cs ++ more := by
  obtain ⟨letter, tail, next, cs, rfl, stepped, later⟩ := exists_char (by simp) found
  rw [step] at stepped
  split at stepped
  next unicode =>
    obtain ⟨ds, u, tail, rfl, unit, after⟩ := exists_codeUnit_of_begun stepped later
    rw [unicode]
    exact exists_part_of_unit unit after
  next =>
    split at stepped
    case h_2 => cases stepped
    next c meant =>
      cases stepped
      have known : (letter, c) ∈ letters := by
        unfold unescape? at meant
        split at meant <;> cases meant <;> decide
      obtain ⟨more, plain, same⟩ := prepend_eq_ok_iff.mp later
      exact ⟨_, _, tail, more, .letter known, rfl, plain, same⟩

theorem exists_part {p : Piece} (found : body strict .plain true (p :: input) = .ok (all, rest))
    (inside : p ≠ .char '"') :
    ∃ text cs tail more, Part strict text cs ∧ p :: input = text ++ tail ∧
      body strict .plain true tail = .ok (more, rest) ∧ all = cs ++ more := by
  cases p with
  | stray byte =>
    rw [body, if_pos rfl] at found
    cases strict with
    | true => cases clean_of_body found
    | false =>
      rw [body_lax] at found
      exact ⟨_, _, input, all, .stray byte, rfl, found, rfl⟩
  | char c =>
    have quote : c ≠ '"' := fun same => inside (congrArg Piece.char same)
    by_cases backslash : c = '\\'
    · subst backslash
      rw [body_backslash] at found
      exact exists_part_of_escape found
    · obtain ⟨next, cs, stepped, later⟩ := exists_step (fun inside => quote inside.2) found
      rw [step, if_neg backslash] at stepped
      split at stepped
      next => cases stepped
      next visible =>
        cases stepped
        obtain ⟨more, plain, same⟩ := prepend_eq_ok_iff.mp later
        exact ⟨_, _, input, more, .plain (Nat.not_lt.mp visible) quote backslash, rfl, plain, same⟩

theorem Part.ne_nil (part : Part strict text cs) : text ≠ [] := by
  cases part <;> simp

/-- What the reader takes is made of parts, and ends in the closing quote. -/
theorem body_eq_ok_iff :
    body strict .plain true input = .ok (all, rest) ↔
      ∃ inside, Parts strict inside all ∧ input = inside ++ .char '"' :: rest := by
  constructor
  · intro found
    induction length : input.length using Nat.strongRecOn generalizing input all with
    | ind n ih =>
      match input with
      | [] => cases found
      | p :: input =>
        by_cases closing : p = .char '"'
        · subst closing
          rw [body, if_pos ⟨rfl, rfl⟩, Bool.true_or, if_pos rfl] at found
          cases found
          exact ⟨[], .nil, rfl⟩
        · obtain ⟨text, cs, tail, more, part, split, later, rfl⟩ := exists_part found closing
          have some_piece := List.length_pos_iff.mpr part.ne_nil
          have lengths := congrArg List.length split
          rw [List.length_append] at lengths
          obtain ⟨inside, parts, rfl⟩ := ih tail.length (by omega) later rfl
          exact ⟨text ++ inside, .cons part parts, by rw [split, List.append_assoc]⟩
  · rintro ⟨inside, parts, rfl⟩
    induction parts with
    | nil => cases strict <;> rfl
    | cons part parts ih =>
      rw [List.append_assoc, body_part part, ih]
      rfl

/-! ### Texts -/

theorem read_eq_ok_iff {s : String} :
    read input = .ok (s, rest) ↔ ∃ text, Spells text s ∧ input = text ++ rest := by
  rw [read, map_eq_ok_iff]
  constructor
  · rintro ⟨⟨cs, tail⟩, found, same⟩
    cases same
    obtain ⟨inside, parts, rfl⟩ := body_eq_ok_iff.mp found
    exact ⟨_, ⟨inside, by rwa [String.toList_ofList], rfl⟩, by simp⟩
  · rintro ⟨_, ⟨inside, parts, rfl⟩, rfl⟩
    refine ⟨(s.toList, rest), body_eq_ok_iff.mpr ⟨inside, parts, by simp⟩, ?_⟩
    rw [String.ofList_toList]

theorem skip_eq_ok_iff {u : Unit} :
    skip input = .ok (u, rest) ↔ ∃ text, Passes text ∧ input = text ++ rest := by
  rw [skip, map_eq_ok_iff]
  constructor
  · rintro ⟨⟨cs, tail⟩, found, same⟩
    cases same
    obtain ⟨inside, parts, rfl⟩ := body_eq_ok_iff.mp found
    exact ⟨_, ⟨inside, cs, parts, rfl⟩, by simp⟩
  · rintro ⟨_, ⟨inside, cs, parts, rfl⟩, rfl⟩
    exact ⟨(cs, rest), body_eq_ok_iff.mpr ⟨inside, parts, by simp⟩, rfl⟩

/-! ### What is written -/

theorem hexDigit_digitChar {d : Nat} (small : d < 16) : HexDigit (Nat.digitChar d) d := by
  have table : ∀ d < 16, hexDigit? (Nat.digitChar d) = some d := by decide
  exact hexDigit?_eq_some_iff.mp (table d small)

theorem codeUnit_control {n : Nat} (control : n < 0x20) :
    CodeUnit ['0', '0', Nat.digitChar (n / 16), Nat.digitChar (n % 16)] n := by
  have zero : HexDigit '0' 0 := hexDigit_digitChar (d := 0) (by decide)
  refine ⟨[0, 0, n / 16, n % 16], ?_, rfl, ?_⟩
  · exact .cons zero (.cons zero (.cons (hexDigit_digitChar (by omega))
      (.cons (hexDigit_digitChar (Nat.mod_lt n (by decide))) .nil)))
  · simp only [List.foldl_cons, List.foldl_nil]
    omega

/-- A character is written in one of its spellings. -/
theorem part_escape (c : Char) : Part true (ofChars (escape c)) [c] := by
  -- The forms of an escape in the order in which they are tried; the controls of no form of their
  -- own come last, before the characters that stand as they are.
  rw [escape]
  split
  next => subst c; exact .letter (by decide)
  split
  next => subst c; exact .letter (by decide)
  split
  next => subst c; exact .letter (by decide)
  split
  next => subst c; exact .letter (by decide)
  split
  next => subst c; exact .letter (by decide)
  split
  next => subst c; exact .letter (by decide)
  split
  next => subst c; exact .letter (by decide)
  split
  next control => exact .unit (codeUnit_control control)
  next quote backslash _ _ _ _ _ raw => exact .plain (Nat.not_lt.mp raw) quote backslash

theorem parts_escape (cs : List Char) : Parts true (ofChars (cs.flatMap escape)) cs := by
  induction cs with
  | nil => exact .nil
  | cons c cs ih =>
    rw [List.flatMap_cons, Input.ofChars_append]
    exact .cons (part_escape c) ih

theorem spells_quote (s : String) : Spells (ofChars (s.toList.flatMap escape ++ ['"'])) s :=
  ⟨_, parts_escape s.toList, Input.ofChars_append _ _⟩

end Quoted
end LeafPaths.Json
