import LeafPaths.Proofs.Text.Trim
import LeafPaths.Text.Decimal

/-!
How a number may be written: in decimal digits, with a plus sign or leading zeros before them and
white space around them. Reading the trimmed text accepts exactly the writings of numbers of
64 bits.
-/

namespace LeafPaths.Text

def Blank (text : String) : Prop := ∀ c ∈ text.toList, isBlank c

instance (text : String) : Decidable (Blank text) :=
  decidable_of_iff (text.toList.all isBlank = true) List.all_eq_true

def Numeral (text : String) (value : Nat) : Prop :=
  ∃ sign digits : String, text = sign ++ digits ∧ (sign = "" ∨ sign = "+") ∧ digits ≠ "" ∧
    (∀ c ∈ digits.toList, c.isDigit) ∧ Nat.ofDigitChars 10 digits.toList 0 = value

def Spells (text : String) (value : Nat) : Prop :=
  ∃ before numeral after : String, text = before ++ numeral ++ after ∧ Blank before ∧ Blank after ∧
    Numeral numeral value

/-- The decimal form of the number, with any leading zeros, plus sign and white space. -/
def Prints (text : String) (value : Nat) : Prop :=
  ∃ before sign zeros after : String,
    text = before ++ (sign ++ (zeros ++ toString value)) ++ after ∧ Blank before ∧ Blank after ∧
      (sign = "" ∨ sign = "+") ∧ ∀ c ∈ zeros.toList, c = '0'

variable {text : String} {value : Nat} {c : Char} {cs digits : List Char} {w : UInt64}

theorem isBlank_of_isDigit (digit : c.isDigit) : isBlank c = false := by
  have range : 48 ≤ c.toNat ∧ c.toNat ≤ 57 := by
    simpa [Char.isDigit, UInt32.le_iff_toNat_le] using digit
  have apart : ∀ run ∈ blankRuns, run.2 < 48 ∨ 57 < run.1 := by decide
  rw [isBlank, List.any_eq_false]
  intro run member inside
  have outside := apart run member
  rw [Bool.and_eq_true, decide_eq_true_eq, decide_eq_true_eq] at inside
  omega

/-! ### Words -/

theorem exists_sign (cs : List Char) :
    ∃ sign : String, (sign = "" ∨ sign = "+") ∧ cs = sign.toList ++ dropPlus cs := by
  unfold dropPlus
  split
  · exact ⟨"+", Or.inr rfl, rfl⟩
  · exact ⟨"", Or.inl rfl, rfl⟩

theorem dropPlus_append {sign : String} (optional : sign = "" ∨ sign = "+")
    (all : ∀ c ∈ digits, c.isDigit) : dropPlus (sign.toList ++ digits) = digits := by
  rcases optional with rfl | rfl
  · rw [String.toList_empty, List.nil_append]
    unfold dropPlus
    split
    · exact absurd (all '+' List.mem_cons_self) (by decide)
    · rfl
  · rfl

theorem readWord?_eq_some_iff : readWord? cs = some w ↔ dropPlus cs ≠ [] ∧
    (∀ c ∈ dropPlus cs, c.isDigit) ∧ Nat.ofDigitChars 10 (dropPlus cs) 0 = w.toNat := by
  have small := w.toNat_lt
  rw [readWord?]
  split
  next refused =>
    constructor
    · nofun
    · rintro ⟨nonempty, all, -⟩
      have some_other : ∃ c ∈ dropPlus cs, c.isDigit = false := by simpa [nonempty] using refused
      obtain ⟨c, member, other⟩ := some_other
      rw [all c member] at other
      cases other
  next accepted =>
    obtain ⟨nonempty, all⟩ : dropPlus cs ≠ [] ∧ ∀ c ∈ dropPlus cs, c.isDigit := by
      simpa using accepted
    split
    next =>
      rw [Option.some_inj, ← UInt64.toNat_inj, UInt64.toNat_ofNatLT]
      exact ⟨fun value => ⟨nonempty, all, value⟩, fun read => read.2.2⟩
    next large =>
      constructor
      · nofun
      · rintro ⟨-, -, value⟩
        rw [digitsValue, value] at large
        exact absurd small large

theorem readWord?_toList_iff : readWord? text.toList = some w ↔ Numeral text w.toNat := by
  rw [readWord?_eq_some_iff]
  constructor
  · rintro ⟨nonempty, all, value⟩
    obtain ⟨sign, optional, parts⟩ := exists_sign text.toList
    refine ⟨sign, String.ofList (dropPlus text.toList), ?_, optional, ?_, ?_, ?_⟩
    · rw [← String.toList_inj, String.toList_append, String.toList_ofList, ← parts]
    · simpa [← String.toList_inj] using nonempty
    · rwa [String.toList_ofList]
    · rwa [String.toList_ofList]
  · rintro ⟨sign, digits, rfl, optional, nonempty, all, value⟩
    rw [String.toList_append, dropPlus_append optional all]
    exact ⟨by simpa using nonempty, all, value⟩

/-! ### Numbers with white space around them -/

theorem Numeral.trimmed {before numeral after : String} (written : Numeral numeral value)
    (blank : Blank before) (blank' : Blank after) :
    Trimmed (before ++ numeral ++ after) numeral := by
  obtain ⟨sign, digits, rfl, optional, nonempty, all, -⟩ := written
  refine ⟨⟨before, after, rfl, blank, blank'⟩, ?_, ?_⟩
  · intro c first
    rcases optional with rfl | rfl
    · rw [String.empty_append] at first
      exact isBlank_of_isDigit (all c (List.mem_of_head? first))
    · obtain rfl : '+' = c := by simpa using first
      decide
  · intro c last
    have some_digit : digits.toList ≠ [] := by simpa using nonempty
    rw [String.toList_append, List.getLast?_append, List.getLast?_eq_some_getLast some_digit,
      Option.some_or] at last
    obtain rfl := Option.some.inj last
    exact isBlank_of_isDigit (all _ (List.getLast_mem some_digit))

theorem readWord?_trim_iff : readWord? (trim text).toList = some w ↔ Spells text w.toNat := by
  rw [readWord?_toList_iff]
  constructor
  · intro written
    obtain ⟨before, after, whole, blank, blank'⟩ := (trimmed_trim text).around
    exact ⟨before, trim text, after, whole, blank, blank', written⟩
  · rintro ⟨before, numeral, after, rfl, blank, blank', written⟩
    rwa [(written.trimmed blank blank').trim_eq]

theorem Spells.not_blank (spells : Spells text value) : ¬ Blank text := by
  obtain ⟨before, numeral, after, rfl, blank, blank', written⟩ := spells
  intro nothing
  have empty := trim_eq_empty_iff.mpr nothing
  rw [(written.trimmed blank blank').trim_eq] at empty
  obtain ⟨sign, digits, rfl, -, nonempty, -⟩ := written
  exact nonempty (String.append_eq_empty_iff.mp empty).2

theorem Prints.spells (prints : Prints text value) : Spells text value := by
  obtain ⟨before, sign, zeros, after, rfl, blank, blank', optional, zero⟩ := prints
  have decimal : (toString value).toList = Nat.toDigits 10 value := by
    rw [Nat.toString_eq_ofList_toDigits, String.toList_ofList]
  refine ⟨before, _, after, rfl, blank, blank', sign, _, rfl, optional, ?_, ?_, ?_⟩
  · intro empty
    have none_left := (String.append_eq_empty_iff.mp empty).2
    rw [← String.toList_inj, decimal] at none_left
    exact Nat.toDigits_ne_nil none_left
  · intro c member
    rw [String.toList_append, decimal] at member
    rcases List.mem_append.mp member with member | member
    · rw [zero c member]
      decide
    · exact Nat.isDigit_of_mem_toDigits (by decide) (by decide) member
  · rw [String.toList_append, decimal, List.eq_replicate_of_mem zero, Nat.ofDigitChars_append,
      Nat.ofDigitChars_replicate_zero, Nat.mul_zero,
      Nat.ofDigitChars_toDigits (by decide) (by decide)]

end LeafPaths.Text
