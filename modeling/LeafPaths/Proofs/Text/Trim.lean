import LeafPaths.Text.Blank

/-!
What trimming leaves of a text: the part between the white space at its two ends.
-/

namespace LeafPaths.Text

structure Trimmed (text middle : String) : Prop where
  around : ∃ before after, text = before ++ middle ++ after ∧
    (∀ c ∈ before.toList, isBlank c) ∧ ∀ c ∈ after.toList, isBlank c
  first : ∀ c, middle.toList.head? = some c → isBlank c = false
  last : ∀ c, middle.toList.getLast? = some c → isBlank c = false

variable {text middle : String} {before cs after : List Char}

theorem trimStart_append (blank : ∀ c ∈ before, isBlank c) (cs : List Char) :
    trimStart (before ++ cs) = trimStart cs :=
  List.dropWhile_append_of_pos blank

theorem trimEnd_append (blank : ∀ c ∈ after, isBlank c) : trimEnd (cs ++ after) = trimEnd cs := by
  rw [trimEnd, List.reverse_append, List.dropWhile_append_of_pos (by simpa using blank), trimEnd]

theorem trimStart_of_head? (first : ∀ c, cs.head? = some c → isBlank c = false) :
    trimStart cs = cs := by
  cases cs with
  | nil => rfl
  | cons c cs => simp [trimStart, first c rfl]

theorem trimEnd_of_getLast? (last : ∀ c, cs.getLast? = some c → isBlank c = false) :
    trimEnd cs = cs := by
  rw [← List.head?_reverse] at last
  have same := trimStart_of_head? last
  rw [trimStart] at same
  rw [trimEnd, same, List.reverse_reverse]

theorem exists_trimStart (cs : List Char) :
    ∃ before, cs = before ++ trimStart cs ∧ ∀ c ∈ before, isBlank c :=
  ⟨_, List.takeWhile_append_dropWhile.symm, List.all_eq_true.mp List.all_takeWhile⟩

theorem exists_trimEnd (cs : List Char) :
    ∃ after, cs = trimEnd cs ++ after ∧ ∀ c ∈ after, isBlank c := by
  obtain ⟨before, whole, blank⟩ := exists_trimStart cs.reverse
  refine ⟨before.reverse, ?_, by simpa using blank⟩
  rw [trimEnd, ← List.reverse_append, ← trimStart, ← whole, List.reverse_reverse]

theorem head?_trimStart (cs : List Char) {c : Char} (head : (trimStart cs).head? = some c) :
    isBlank c = false := by
  have stopped := List.head?_dropWhile_not isBlank cs
  rw [← trimStart, head] at stopped
  exact stopped

theorem getLast?_trimEnd {c : Char} (last : (trimEnd cs).getLast? = some c) : isBlank c = false := by
  rw [trimEnd, List.getLast?_reverse] at last
  exact head?_trimStart _ last

theorem trimmed_trim (text : String) : Trimmed text (trim text) := by
  obtain ⟨before, start, blank⟩ := exists_trimStart text.toList
  obtain ⟨after, rest, blank'⟩ := exists_trimEnd (trimStart text.toList)
  refine ⟨⟨String.ofList before, String.ofList after, ?_, by simpa using blank,
    by simpa using blank'⟩, ?_, ?_⟩
  · rw [trim, ← String.ofList_append, ← String.ofList_append, List.append_assoc, ← rest, ← start,
      String.ofList_toList]
  · intro c head
    rw [trim, String.toList_ofList] at head
    apply head?_trimStart text.toList
    rw [rest, List.head?_append, head, Option.some_or]
  · intro c last
    rw [trim, String.toList_ofList] at last
    exact getLast?_trimEnd last

theorem Trimmed.trim_eq (trimmed : Trimmed text middle) : trim text = middle := by
  obtain ⟨⟨before, after, rfl, blank, blank'⟩, first, last⟩ := trimmed
  have kept : trimEnd (trimStart (middle.toList ++ after.toList)) = middle.toList := by
    cases shape : middle.toList with
    | nil =>
      have nothing := trimStart_append blank' []
      rw [List.append_nil] at nothing
      rw [List.nil_append, nothing]
      rfl
    | cons c cs =>
      rw [shape] at first last
      rw [trimStart_of_head? (by simpa using first), trimEnd_append blank', trimEnd_of_getLast? last]
  rw [trim, String.toList_append, String.toList_append, List.append_assoc, trimStart_append blank,
    kept, String.ofList_toList]

theorem trim_eq_empty_iff : trim text = "" ↔ ∀ c ∈ text.toList, isBlank c := by
  constructor
  · intro nothing
    obtain ⟨⟨before, after, whole, blank, blank'⟩, -, -⟩ := trimmed_trim text
    rw [nothing, String.append_empty] at whole
    rw [whole, String.toList_append]
    intro c member
    rcases List.mem_append.mp member with member | member
    · exact blank c member
    · exact blank' c member
  · intro blank
    apply Trimmed.trim_eq
    exact ⟨⟨text, "", by simp, blank, by simp⟩, by simp, by simp⟩

end LeafPaths.Text
