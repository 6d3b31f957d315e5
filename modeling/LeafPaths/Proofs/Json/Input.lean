import LeafPaths.Json.Input
import LeafPaths.Proofs.Text.Bytes

/-!
How bytes are cut into characters. A character is taken wherever one begins, and any other byte is a
stray; so there is one way only, and encoded text is cut into its own characters.
-/

namespace LeafPaths.Json.Input

variable {bytes bytes' whole : ByteArray} {input : Input} {c d : Char}

def encode (c : Char) : ByteArray := (String.utf8EncodeChar c).toByteArray

inductive Decodes : ByteArray → Input → Prop where
  | nil : Decodes .empty []
  | char (c : Char) {bytes : ByteArray} {input : Input} (later : Decodes bytes input) :
      Decodes (encode c ++ bytes) (.char c :: input)
  | stray (byte : UInt8) {bytes : ByteArray} {input : Input}
      (noChar : ∀ c after, [byte].toByteArray ++ bytes ≠ encode c ++ after)
      (later : Decodes bytes input) :
      Decodes ([byte].toByteArray ++ bytes) (.stray byte :: input)

theorem utf8DecodeChar?_encode_append (c : Char) (bytes : ByteArray) :
    (encode c ++ bytes).utf8DecodeChar? 0 = some c :=
  ByteArray.utf8DecodeChar?_utf8EncodeChar_append

theorem encode_append_inj (same : encode c ++ bytes = encode d ++ bytes') :
    c = d ∧ bytes = bytes' := by
  have first := utf8DecodeChar?_encode_append c bytes
  rw [same, utf8DecodeChar?_encode_append] at first
  obtain rfl := Option.some.inj first
  exact ⟨rfl, (ByteArray.append_right_inj _).mp same⟩

/-! ### What the scan finds -/

theorem decodes_ofString (s : String) : Decodes s.toUTF8 (ofString s) := by
  have decoded : ∀ cs : List Char, Decodes cs.utf8Encode (cs.map .char) := by
    intro cs
    induction cs with
    | nil => exact .nil
    | cons c cs ih =>
      rw [List.utf8Encode_cons, List.utf8Encode_singleton]
      exact .char c ih
  rw [String.toUTF8_eq_toByteArray, ← String.utf8Encode_toList]
  exact decoded s.toList

/-- From a place on, the scan decodes what is left. -/
theorem decodes_scan (bytes : ByteArray) (i : Nat) :
    Decodes (bytes.extract i bytes.size) (scan bytes i) := by
  fun_induction scan bytes i with
  | case1 i inside c found ih =>
    rw [ByteArray.utf8DecodeChar?_eq_utf8DecodeChar?_extract] at found
    have split := ByteArray.eq_of_utf8DecodeChar?_eq_some found
    rw [ByteArray.extract_extract, ByteArray.size_extract] at split
    rw [split]
    have rest : min (i + (min bytes.size bytes.size - i)) bytes.size = bytes.size := by omega
    rw [rest]
    exact .char c ih
  | case2 i inside missing ih =>
    have split : bytes.extract i bytes.size =
        [bytes.get! i].toByteArray ++ bytes.extract (i + 1) bytes.size := by
      have first : bytes.get! i = bytes[i] := getElem!_pos bytes.data i inside
      rw [ByteArray.extract_eq_extract_append_extract (i + 1) (Nat.le_add_right i 1) inside,
        ByteArray.extract_add_one inside, first]
    rw [split]
    refine .stray _ (fun c after same => ?_) ih
    rw [ByteArray.utf8DecodeChar?_eq_utf8DecodeChar?_extract, split, same,
      utf8DecodeChar?_encode_append] at missing
    cases missing
  | case3 i past =>
    have nothing : bytes.extract i bytes.size = .empty := by
      rw [← ByteArray.size_eq_zero_iff, ByteArray.size_extract]
      omega
    rw [nothing]
    exact .nil

theorem decodes_ofBytes (bytes : ByteArray) : Decodes bytes (ofBytes bytes) := by
  rw [ofBytes]
  split
  next s valid =>
    have encoded : bytes = s.toUTF8 := by
      rw [String.fromUTF8?] at valid
      split at valid
      · cases valid
        rfl
      · cases valid
    rw [encoded]
    exact decodes_ofString s
  next =>
    have whole := decodes_scan bytes 0
    rwa [ByteArray.extract_zero_size] at whole

/-! ### There is no other way -/

theorem size_encode_pos (c : Char) : 0 < (encode c).size := by
  rw [encode, List.size_toByteArray, String.length_utf8EncodeChar]
  exact c.utf8Size_pos

theorem Decodes.eq_nil (decodes : Decodes bytes input) (nothing : bytes.size = 0) : input = [] := by
  cases decodes with
  | nil => rfl
  | char c =>
    have := size_encode_pos c
    rw [ByteArray.size_append] at nothing
    omega
  | stray byte =>
    rw [ByteArray.size_append, List.size_toByteArray, List.length_singleton] at nothing
    omega

theorem Decodes.exists_char (decodes : Decodes (encode c ++ bytes) input) :
    ∃ later, Decodes bytes later ∧ input = .char c :: later := by
  generalize split : encode c ++ bytes = whole at decodes
  cases decodes with
  | nil =>
    have sizes := congrArg ByteArray.size split
    have := size_encode_pos c
    rw [ByteArray.size_append, ByteArray.size_empty] at sizes
    omega
  | char d later =>
    obtain ⟨rfl, rfl⟩ := encode_append_inj split
    exact ⟨_, later, rfl⟩
  | stray byte noChar => exact (noChar c bytes split.symm).elim

theorem Decodes.exists_stray {byte : UInt8}
    (noChar : ∀ c after, [byte].toByteArray ++ bytes ≠ encode c ++ after)
    (decodes : Decodes ([byte].toByteArray ++ bytes) input) :
    ∃ later, Decodes bytes later ∧ input = .stray byte :: later := by
  generalize split : [byte].toByteArray ++ bytes = whole at decodes
  cases decodes with
  | nil =>
    have sizes := congrArg ByteArray.size split
    rw [ByteArray.size_append, List.size_toByteArray, List.length_singleton,
      ByteArray.size_empty] at sizes
    omega
  | char d => exact (noChar d _ split).elim
  | stray other _ later =>
    have first := congrArg ByteArray.data (ByteArray.append_inj_left split (by simp))
    obtain rfl : byte = other := by simpa using first
    obtain rfl := (ByteArray.append_right_inj _).mp split
    exact ⟨_, later, rfl⟩

theorem Decodes.unique {input' : Input} (decodes : Decodes bytes input)
    (other : Decodes bytes input') : input' = input := by
  induction decodes generalizing input' with
  | nil => exact other.eq_nil ByteArray.size_empty
  | char c _ ih =>
    obtain ⟨later, found, rfl⟩ := other.exists_char
    rw [ih found]
  | stray byte noChar _ ih =>
    obtain ⟨later, found, rfl⟩ := other.exists_stray noChar
    rw [ih found]

theorem ofBytes_eq_iff : ofBytes bytes = input ↔ Decodes bytes input := by
  constructor
  · rintro rfl
    exact decodes_ofBytes bytes
  · intro decodes
    exact decodes.unique (decodes_ofBytes bytes)

end LeafPaths.Json.Input
