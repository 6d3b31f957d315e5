import LeafPaths.Proofs.Text.Decimal
import LeafPaths.Settings

/-!
Which settings three variables give. Each is absent, gives a number or is malformed; the first
malformed one is blamed, and without one the numbers are the settings, if these are valid.
-/

namespace LeafPaths.Settings

def variableNames : List String :=
  ["PATH_CONTEXT_MAX_LENGTH", "PATH_CONTEXT_MAX_WIDTH", "PATH_CONTEXT_MAX_CONTEXTS"]

/-- The variable is not set, or white space only. -/
def Absent (text? : Option String) : Prop := ∀ text, text? = some text → Text.Blank text

/-- The variable is set to something that is neither white space nor a number of 64 bits. -/
def Malformed (text? : Option String) : Prop :=
  ∃ text, text? = some text ∧ ¬ Text.Blank text ∧ ∀ value < UInt64.size, ¬ Text.Spells text value

/-- The number of a variable, which is `default` where it is absent. -/
def Gives (text? : Option String) (default value : UInt64) : Prop :=
  Absent text? ∧ value = default ∨ ∃ text, text? = some text ∧ Text.Spells text value.toNat

/-- Of the malformed variables this is the first. -/
def Blamed (lookup : String → Option String) (variableName text : String) : Prop :=
  ∃ earlier later, variableNames = earlier ++ variableName :: later ∧
    (∀ other ∈ earlier, ¬ Malformed (lookup other)) ∧
    Malformed (lookup variableName) ∧ lookup variableName = some text

structure GivenBy (s : Settings) (lookup : String → Option String) : Prop where
  length : Gives (lookup "PATH_CONTEXT_MAX_LENGTH") 8 s.maxLength
  width : Gives (lookup "PATH_CONTEXT_MAX_WIDTH") 2 s.maxWidth
  contexts : Gives (lookup "PATH_CONTEXT_MAX_CONTEXTS") 200 s.maxContexts

structure PrintedIn (s : Settings) (lookup : String → Option String) : Prop where
  length : ∃ text, lookup "PATH_CONTEXT_MAX_LENGTH" = some text ∧ Text.Prints text s.maxLength.toNat
  width : ∃ text, lookup "PATH_CONTEXT_MAX_WIDTH" = some text ∧ Text.Prints text s.maxWidth.toNat
  contexts :
    ∃ text, lookup "PATH_CONTEXT_MAX_CONTEXTS" = some text ∧ Text.Prints text s.maxContexts.toNat

variable {lookup : String → Option String} {variableName text : String} {default value : UInt64}
  {s : Settings}

/-! ### One variable -/

theorem isEmpty_trim_iff : (Text.trim text).isEmpty = true ↔ Text.Blank text := by
  rw [String.isEmpty_iff, Text.trim_eq_empty_iff, Text.Blank]

theorem readVariable_of_gives (gives : Gives (lookup variableName) default value) :
    readVariable lookup variableName default = .ok value := by
  rw [readVariable]
  rcases gives with ⟨absent, rfl⟩ | ⟨text, set, spells⟩
  · cases found : lookup variableName with
    | none => rfl
    | some text =>
      dsimp only
      rw [if_pos (isEmpty_trim_iff.mpr (absent text found))]
  · rw [set]
    dsimp only
    rw [if_neg (mt isEmpty_trim_iff.mp spells.not_blank), Text.readWord?_trim_iff.mpr spells]

theorem readVariable_of_malformed (default : UInt64) (malformed : Malformed (lookup variableName))
    (set : lookup variableName = some text) :
    readVariable lookup variableName default = .error (.malformed variableName text) := by
  obtain ⟨text', same, set', other⟩ := malformed
  obtain rfl := Option.some.inj (set.symm.trans same)
  have unread : Text.readWord? (Text.trim text).toList = none := by
    rw [Option.eq_none_iff_forall_ne_some]
    intro w read
    exact other _ w.toNat_lt (Text.readWord?_trim_iff.mp read)
  rw [readVariable, set]
  dsimp only
  rw [if_neg (mt isEmpty_trim_iff.mp set'), unread]

theorem exists_gives_iff (default : UInt64) {text? : Option String} :
    (∃ value, Gives text? default value) ↔ ¬ Malformed text? := by
  constructor
  · rintro ⟨value, ⟨absent, -⟩ | ⟨text, set, spells⟩⟩ ⟨text', set', more, other⟩
    · exact more (absent text' set')
    · obtain rfl := Option.some.inj (set.symm.trans set')
      exact other _ value.toNat_lt spells
  · intro fine
    cases text? with
    | none => exact ⟨default, Or.inl ⟨nofun, rfl⟩⟩
    | some text =>
      by_cases blank : Text.Blank text
      · have absent : Absent (some text) := fun _ same => Option.some.inj same ▸ blank
        exact ⟨default, Or.inl ⟨absent, rfl⟩⟩
      · by_cases number : ∃ value < UInt64.size, Text.Spells text value
        · obtain ⟨value, small, spells⟩ := number
          exact ⟨UInt64.ofNatLT value small, Or.inr ⟨text, rfl, spells⟩⟩
        · have none_fits : ∀ value < UInt64.size, ¬ Text.Spells text value :=
            fun value small spells => number ⟨value, small, spells⟩
          exact absurd ⟨text, rfl, blank, none_fits⟩ fine

theorem readVariable_congr {lookup' : String → Option String}
    (same : lookup' variableName = lookup variableName) (default : UInt64) :
    readVariable lookup' variableName default = readVariable lookup variableName default := by
  rw [readVariable, readVariable, same]

/-! ### All variables -/

theorem ofLookup_of_givenBy (given : s.GivenBy lookup) : ofLookup lookup = s.validate := by
  rw [ofLookup]
  dsimp only
  rw [readVariable_of_gives given.length, readVariable_of_gives given.width,
    readVariable_of_gives given.contexts]
  rfl

theorem split_variableNames {earlier later : List String}
    (split : variableNames = earlier ++ variableName :: later) :
    earlier = [] ∧ variableName = "PATH_CONTEXT_MAX_LENGTH" ∨
      earlier = ["PATH_CONTEXT_MAX_LENGTH"] ∧ variableName = "PATH_CONTEXT_MAX_WIDTH" ∨
      earlier = ["PATH_CONTEXT_MAX_LENGTH", "PATH_CONTEXT_MAX_WIDTH"] ∧
        variableName = "PATH_CONTEXT_MAX_CONTEXTS" := by
  match earlier with
  | [] => simp_all [variableNames]
  | [a] => simp_all [variableNames]
  | [a, b] => simp_all [variableNames]
  | a :: b :: c :: earlier => simp [variableNames] at split

theorem ofLookup_of_blamed (blamed : Blamed lookup variableName text) :
    ofLookup lookup = .error (.malformed variableName text) := by
  obtain ⟨earlier, later, split, fine, malformed, set⟩ := blamed
  have read := fun default => readVariable_of_malformed default malformed set
  have before : ∀ other ∈ earlier, ∀ default, ∃ value,
      readVariable lookup other default = .ok value := by
    intro other member default
    obtain ⟨value, gives⟩ := (exists_gives_iff default).mpr (fine other member)
    exact ⟨value, readVariable_of_gives gives⟩
  rw [ofLookup]
  dsimp only
  rcases split_variableNames split with ⟨rfl, rfl⟩ | ⟨rfl, rfl⟩ | ⟨rfl, rfl⟩
  · rw [read]
    rfl
  · obtain ⟨length, first⟩ := before "PATH_CONTEXT_MAX_LENGTH" (by simp) 8
    rw [first, read]
    rfl
  · obtain ⟨length, first⟩ := before "PATH_CONTEXT_MAX_LENGTH" (by simp) 8
    obtain ⟨width, second⟩ := before "PATH_CONTEXT_MAX_WIDTH" (by simp) 2
    rw [first, second, read]
    rfl

theorem exists_givenBy_iff :
    (∃ s : Settings, s.GivenBy lookup) ↔ ∀ name ∈ variableNames, ¬ Malformed (lookup name) := by
  simp only [variableNames, List.forall_mem_cons]
  constructor
  · rintro ⟨s, length, width, contexts⟩
    exact ⟨(exists_gives_iff _).mp ⟨_, length⟩, (exists_gives_iff _).mp ⟨_, width⟩,
      (exists_gives_iff _).mp ⟨_, contexts⟩, nofun⟩
  · rintro ⟨length, width, contexts, -⟩
    obtain ⟨maxLength, length⟩ := (exists_gives_iff 8).mpr length
    obtain ⟨maxWidth, width⟩ := (exists_gives_iff 2).mpr width
    obtain ⟨maxContexts, contexts⟩ := (exists_gives_iff 200).mpr contexts
    exact ⟨⟨maxLength, maxWidth, maxContexts⟩, length, width, contexts⟩

theorem exists_blamed (malformed : ∃ name ∈ variableNames, Malformed (lookup name)) :
    ∃ name text, Blamed lookup name text := by
  classical
  obtain ⟨name, member, bad⟩ := malformed
  cases first : variableNames.find? fun name => decide (Malformed (lookup name)) with
  | none => exact absurd bad (by simpa using List.find?_eq_none.mp first name member)
  | some name =>
    obtain ⟨bad, earlier, later, split, fine⟩ := List.find?_eq_some_iff_append.mp first
    obtain ⟨text, set, more⟩ := of_decide_eq_true bad
    exact ⟨name, text, earlier, later, split, by simpa using fine, ⟨text, set, more⟩, set⟩

theorem exists_givenBy_or_blamed (lookup : String → Option String) :
    (∃ s : Settings, s.GivenBy lookup ∧ ofLookup lookup = s.validate) ∨
      ∃ name text, Blamed lookup name text ∧ ofLookup lookup = .error (.malformed name text) := by
  by_cases malformed : ∃ name ∈ variableNames, Malformed (lookup name)
  · obtain ⟨name, text, blamed⟩ := exists_blamed malformed
    exact Or.inr ⟨name, text, blamed, ofLookup_of_blamed blamed⟩
  · have fine : ∀ name ∈ variableNames, ¬ Malformed (lookup name) :=
      fun name member bad => malformed ⟨name, member, bad⟩
    obtain ⟨s, given⟩ := exists_givenBy_iff.mpr fine
    exact Or.inl ⟨s, given, ofLookup_of_givenBy given⟩

theorem validate_eq_error_iff {e : Error} : s.validate = .error e ↔
    e = .zeroLength ∧ s.maxLength = 0 ∨
      e = .zeroContexts ∧ s.maxLength ≠ 0 ∧ s.maxContexts = 0 := by
  rw [validate]
  split
  · simp [*, eq_comm]
  · split
    · simp [*, eq_comm]
    · simp [*]

theorem ofLookup_eq_malformed_iff :
    ofLookup lookup = .error (.malformed variableName text) ↔ Blamed lookup variableName text := by
  constructor
  · intro failed
    obtain ⟨s, -, result⟩ | ⟨name, text', blamed, result⟩ := exists_givenBy_or_blamed lookup
    · rw [failed] at result
      obtain ⟨impossible, -⟩ | ⟨impossible, -⟩ := validate_eq_error_iff.mp result.symm
      · cases impossible
      · cases impossible
    · rw [failed] at result
      cases result
      exact blamed
  · exact ofLookup_of_blamed

/-- Any other result is that of checking what the variables give. -/
theorem ofLookup_eq_iff {result : Except Error Settings}
    (other : ∀ name text, result ≠ .error (.malformed name text)) :
    ofLookup lookup = result ↔ ∃ s : Settings, s.GivenBy lookup ∧ s.validate = result := by
  constructor
  · rintro rfl
    obtain ⟨s, given, result⟩ | ⟨name, text, -, result⟩ := exists_givenBy_or_blamed lookup
    · exact ⟨s, given, result.symm⟩
    · exact absurd result (other name text)
  · rintro ⟨s, given, rfl⟩
    exact ofLookup_of_givenBy given

theorem PrintedIn.givenBy (printed : s.PrintedIn lookup) : s.GivenBy lookup := by
  obtain ⟨⟨length, set, prints⟩, ⟨width, set', prints'⟩, ⟨contexts, set'', prints''⟩⟩ := printed
  exact ⟨Or.inr ⟨length, set, prints.spells⟩, Or.inr ⟨width, set', prints'.spells⟩,
    Or.inr ⟨contexts, set'', prints''.spells⟩⟩

/-- What is read depends on three texts alone. The first malformed one is reported as it stands;
otherwise the numbers that they give are the settings, unless the length or the number of contexts
is zero. Settings that are valid are read back from their decimal forms. -/
theorem ofLookup_of_three_texts (lookup : String → Option String) :
    (∀ lookup', (∀ name ∈ variableNames, lookup' name = lookup name) →
        ofLookup lookup' = ofLookup lookup) ∧
      ((∃ name text, ofLookup lookup = .error (.malformed name text)) ↔
        ∃ name ∈ variableNames, Malformed (lookup name)) ∧
      (∀ name text, ofLookup lookup = .error (.malformed name text) ↔ Blamed lookup name text) ∧
      (ofLookup lookup = .error .zeroLength ↔
        ∃ s : Settings, s.GivenBy lookup ∧ s.maxLength = 0) ∧
      (ofLookup lookup = .error .zeroContexts ↔
        ∃ s : Settings, s.GivenBy lookup ∧ s.maxLength ≠ 0 ∧ s.maxContexts = 0) ∧
      (∀ s, ofLookup lookup = .ok s ↔ s.GivenBy lookup ∧ s.maxLength ≠ 0 ∧ s.maxContexts ≠ 0) ∧
      (∀ s, ofLookup lookup = .ok s → s.validate = .ok s) ∧
      ∀ s : Settings, s.validate = .ok s → s.PrintedIn lookup → ofLookup lookup = .ok s := by
  have ok_iff : ∀ s, ofLookup lookup = .ok s ↔
      s.GivenBy lookup ∧ s.maxLength ≠ 0 ∧ s.maxContexts ≠ 0 := by
    intro s
    rw [ofLookup_eq_iff (by simp)]
    constructor
    · rintro ⟨s', given, valid⟩
      obtain ⟨rfl, nonzero⟩ := validate_eq_ok_iff.mp valid
      exact ⟨given, nonzero⟩
    · rintro ⟨given, nonzero⟩
      exact ⟨s, given, validate_eq_ok_iff.mpr ⟨rfl, nonzero⟩⟩
  refine ⟨?_, ?_, fun name text => ofLookup_eq_malformed_iff, ?_, ?_, ok_iff, ?_, ?_⟩
  · intro lookup' same
    simp only [variableNames, List.forall_mem_cons] at same
    rw [ofLookup, ofLookup]
    dsimp only
    rw [readVariable_congr same.1, readVariable_congr same.2.1, readVariable_congr same.2.2.1]
  · constructor
    · rintro ⟨name, text, failed⟩
      obtain ⟨earlier, later, split, -, malformed, -⟩ := ofLookup_eq_malformed_iff.mp failed
      exact ⟨name, by simp [split], malformed⟩
    · intro malformed
      obtain ⟨name, text, blamed⟩ := exists_blamed malformed
      exact ⟨name, text, ofLookup_of_blamed blamed⟩
  · rw [ofLookup_eq_iff (by simp)]
    simp [validate_eq_error_iff]
  · rw [ofLookup_eq_iff (by simp)]
    simp [validate_eq_error_iff]
  · intro s read
    exact validate_eq_ok_iff.mpr ⟨rfl, ((ok_iff s).mp read).2⟩
  · intro s valid printed
    exact (ok_iff s).mpr ⟨printed.givenBy, (validate_eq_ok_iff.mp valid).2⟩

def paddedVariables (name : String) : Option String :=
  [("PATH_CONTEXT_MAX_LENGTH", "\u2003+0018446744073709551615\n"), ("PATH_CONTEXT_MAX_WIDTH", "0"),
    ("PATH_CONTEXT_MAX_CONTEXTS", " 50\t")].lookup name

theorem ofLookup_of_paddedVariables :
    (⟨18446744073709551615, 0, 50⟩ : Settings).validate = .ok ⟨18446744073709551615, 0, 50⟩ ∧
      ofLookup paddedVariables = .ok ⟨18446744073709551615, 0, 50⟩ := by
  have valid : (⟨18446744073709551615, 0, 50⟩ : Settings).validate =
      .ok ⟨18446744073709551615, 0, 50⟩ := rfl
  have printed : (⟨18446744073709551615, 0, 50⟩ : Settings).PrintedIn paddedVariables := by
    refine ⟨⟨_, rfl, "\u2003", "+", "00", "\n", ?_⟩, ⟨_, rfl, "", "", "", "", ?_⟩,
      ⟨_, rfl, " ", "", "", "\t", ?_⟩⟩
    · exact ⟨by decide +kernel, by decide, by decide, Or.inr rfl, by simp⟩
    · exact ⟨by decide +kernel, by decide, by decide, Or.inl rfl, by simp⟩
    · exact ⟨by decide +kernel, by decide, by decide, Or.inl rfl, by simp⟩
  exact ⟨valid, (ofLookup_of_three_texts paddedVariables).2.2.2.2.2.2.2 _ valid printed⟩

end LeafPaths.Settings
