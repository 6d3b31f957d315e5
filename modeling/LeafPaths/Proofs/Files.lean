import LeafPaths.Files

/-!
What a write changes. The new file stands in a directory that is there and takes the place of no
directory, so all directories stay as they are, and a path that led to another file still does.
-/

namespace LeafPaths.Files

variable {files files' : Files} {l l' other parent target : Location} {bytes content : ByteArray}
  {path last : String} {names before : List String}

/-! ### Directories -/

theorem isDirectory_iff :
    files.isDirectory l = true ↔
      (∀ component ∈ l, component = ".." ∨ component = "/") ∨ files.find? l = some .directory ∨
        ∃ entry ∈ files.entries, l <+: entry.1 ∧ l.length < entry.1.length := by
  have shape : (files.find? l).any (·.isDirectory) = true ↔ files.find? l = some .directory := by
    rcases files.find? l with _ | _ | _ <;> simp [Entry.isDirectory]
  simp [isDirectory, shape, or_assoc]

theorem mem_of_find?_eq_some {entry : Entry} (found : files.find? l = some entry) :
    (l, entry) ∈ files.entries := by
  obtain ⟨before, after, split, -⟩ := List.lookup_eq_some_iff.mp found
  rw [split]
  exact List.mem_append_right _ List.mem_cons_self

theorem isDirectory_of_prefix (directory : files.isDirectory l = true) (above : l' <+: l) :
    files.isDirectory l' = true := by
  rw [isDirectory_iff] at directory ⊢
  rcases directory with heads | found | ⟨entry, member, below, longer⟩
  · exact Or.inl fun component listed => heads component (above.subset listed)
  · by_cases same : l' = l
    · exact Or.inr (Or.inl (same ▸ found))
    · have shorter : l'.length < l.length :=
        Nat.lt_of_le_of_ne above.length_le fun equal => same (above.eq_of_length equal)
      exact Or.inr (Or.inr ⟨_, mem_of_find?_eq_some found, above, shorter⟩)
  · exact Or.inr (Or.inr ⟨entry, member, above.trans below,
      Nat.lt_of_le_of_lt above.length_le longer⟩)

/-! ### Putting a file in its place -/

theorem find?_put_same (files : Files) (l : Location) (bytes : ByteArray) :
    (files.put l bytes).find? l = some (.file bytes) :=
  List.lookup_cons_self

theorem lookup_filter_ne (entries : List (Location × Entry)) (different : other ≠ l) :
    (entries.filter (·.1 ≠ l)).lookup other = entries.lookup other := by
  induction entries with
  | nil => rfl
  | cons entry entries ih =>
    obtain ⟨key, entry⟩ := entry
    by_cases dropped : key = l
    · have skipped : (other == key) = false := beq_false_of_ne (dropped ▸ different)
      rw [List.filter_cons_of_neg (by simpa using dropped), ih, List.lookup_cons, skipped]
    · rw [List.filter_cons_of_pos (by simpa using dropped), List.lookup_cons, List.lookup_cons, ih]

theorem find?_put_other (different : other ≠ l) :
    (files.put l bytes).find? other = files.find? other := by
  have skipped : (other == l) = false := beq_false_of_ne different
  rw [find?, put, List.lookup_cons, skipped]
  exact lookup_filter_ne files.entries different

/-- The two systems differ in the file at one location only. -/
structure OnlyAt (l : Location) (bytes : ByteArray) (files files' : Files) : Prop where
  here : files'.find? l = some (.file bytes)
  elsewhere : ∀ other, other ≠ l → files'.find? other = files.find? other
  directories : ∀ other, files'.isDirectory other = files.isDirectory other

theorem prefix_of_shorter (above : other <+: parent ++ [last])
    (shorter : other.length < (parent ++ [last]).length) : other <+: parent := by
  rcases List.prefix_concat_iff.mp above with rfl | above
  · exact (Nat.lt_irrefl _ shorter).elim
  · exact above

theorem isDirectory_put (inside : files.isDirectory parent = true)
    (free : files.isDirectory (parent ++ [last]) = false) (other : Location) :
    (files.put (parent ++ [last]) bytes).isDirectory other = files.isDirectory other := by
  have occupied : files.find? (parent ++ [last]) ≠ some .directory := fun found =>
    absurd (isDirectory_iff.mpr (Or.inr (Or.inl found))) (by simp [free])
  rw [Bool.eq_iff_iff]
  constructor
  · intro directory
    rcases isDirectory_iff.mp directory with heads | found | ⟨entry, member, below, longer⟩
    · exact isDirectory_iff.mpr (Or.inl heads)
    · by_cases same : other = parent ++ [last]
      · rw [same, find?_put_same] at found
        cases found
      · rw [find?_put_other same] at found
        exact isDirectory_iff.mpr (Or.inr (Or.inl found))
    · rcases List.mem_cons.mp member with rfl | kept
      · -- What lies above the new file is its parent, or lies above its parent.
        exact isDirectory_of_prefix inside (prefix_of_shorter below longer)
      · exact isDirectory_iff.mpr (Or.inr (Or.inr ⟨entry, (List.mem_filter.mp kept).1, below, longer⟩))
  · intro directory
    rcases isDirectory_iff.mp directory with heads | found | ⟨entry, member, below, longer⟩
    · exact isDirectory_iff.mpr (Or.inl heads)
    · have different : other ≠ parent ++ [last] := fun same => occupied (same ▸ found)
      exact isDirectory_iff.mpr (Or.inr (Or.inl ((find?_put_other different).trans found)))
    · refine isDirectory_iff.mpr (Or.inr (Or.inr ?_))
      -- The file that was replaced stood where the new one stands.
      by_cases same : entry.1 = parent ++ [last]
      · exact ⟨_, List.mem_cons_self, same ▸ below, same ▸ longer⟩
      · exact ⟨entry, List.mem_cons_of_mem _ (List.mem_filter.mpr ⟨member, by simpa using same⟩),
          below, longer⟩

theorem onlyAt_put (inside : files.isDirectory parent = true)
    (free : files.isDirectory (parent ++ [last]) = false) :
    OnlyAt (parent ++ [last]) bytes files (files.put (parent ++ [last]) bytes) :=
  ⟨find?_put_same files _ bytes, fun _ => find?_put_other, isDirectory_put inside free⟩

/-! ### Paths -/

theorem walk_cons_eq_ok_iff {component : String} :
    files.walk l (component :: names) = .ok l' ↔
      files.isDirectory l = true ∧ component.utf8ByteSize ≤ maxName ∧
        files.holds (l.step component) = true ∧ files.walk (l.step component) names = .ok l' := by
  rw [walk]
  by_cases directory : files.isDirectory l = true
  · by_cases long : maxName < component.utf8ByteSize
    · simp [directory, long, Nat.not_le_of_lt long]
    · by_cases there : files.holds (l.step component) = true
      · simp [directory, long, there, Nat.le_of_not_lt long]
      · simp [directory, long, there]
  · simp [directory]

theorem walk_append (led : files.walk l before = .ok parent) (later : List String) :
    files.walk l (before ++ later) = files.walk parent later := by
  induction before generalizing l with
  | nil =>
    obtain rfl := Except.ok.inj led
    rfl
  | cons component before ih =>
    obtain ⟨directory, short, there, led⟩ := walk_cons_eq_ok_iff.mp led
    rw [List.cons_append, walk, ih led]
    simp [directory, there, Nat.not_lt_of_le short]

theorem locate_eq_ok_iff :
    files.locate path = .ok l ↔
      refuses? path = none ∧ files.walk (.start path) (Location.components path) = .ok l := by
  rw [locate]
  cases refuses? path <;> simp

theorem read_eq_ok_iff :
    files.read path = .ok content ↔
      ∃ l, files.locate path = .ok l ∧ files.isDirectory l = false ∧
        files.find? l = some (.file content) ∧ path.endsWith "/" = false := by
  rw [read]
  rcases files.locate path with error | l
  · simp
  · by_cases directory : files.isDirectory l = true
    · simp [directory]
    · rcases found : files.find? l with _ | ⟨bytes⟩ | _
      · simp [directory, found]
      · cases path.endsWith "/" <;> simp [directory, found]
      · simp [directory, found]

structure Opens (files : Files) (path : String) (parent : Location) (last : String) : Prop where
  allowed : refuses? path = none
  leads : ∃ before, Location.components path = before ++ [last] ∧
    files.walk (.start path) before = .ok parent
  inside : files.isDirectory parent = true
  plain : last ≠ "." ∧ last ≠ ".."
  unclosed : path.endsWith "/" = false
  short : last.utf8ByteSize ≤ maxName
  free : files.isDirectory (parent ++ [last]) = false

theorem step_of_plain (plain : last ≠ "." ∧ last ≠ "..") : parent.step last = parent ++ [last] := by
  rw [Location.step, if_neg plain.1, if_neg plain.2]

theorem exists_opens (located : files.locateTarget path = .ok target) :
    ∃ parent last, files.Opens path parent last ∧ target = parent ++ [last] := by
  rw [locateTarget] at located
  split at located
  · cases located
  · cases located
  next last allowed final =>
    obtain ⟨before, names⟩ := List.getLast?_eq_some_iff.mp final
    rw [names, List.dropLast_concat] at located
    split at located
    · cases located
    next parent led =>
      dsimp only at located
      split at located
      · cases located
      split at located
      · cases located
      split at located
      · cases located
      split at located
      · cases located
      next inside ordinary short free =>
        simp only [Bool.or_eq_true, decide_eq_true_eq, not_or, Bool.not_eq_true] at ordinary free
        have step : parent.step last = parent ++ [last] := step_of_plain ordinary.1
        rw [step] at free
        exact ⟨parent, last, ⟨allowed, ⟨before, names, led⟩, by simpa using inside, ordinary.1,
          ordinary.2, Nat.le_of_not_lt short, free⟩, (Except.ok.inj located).symm.trans step⟩

/-! ### What a changed file leaves -/

namespace OnlyAt

theorem holds (changed : OnlyAt l bytes files files') (there : files.holds other = true) :
    files'.holds other = true := by
  rw [Files.holds, changed.directories]
  by_cases same : other = l
  · rw [same, changed.here]
    exact Bool.or_true _
  · rwa [changed.elsewhere other same]

theorem walk (changed : OnlyAt l bytes files files') (led : files.walk other names = .ok l') :
    files'.walk other names = .ok l' := by
  induction names generalizing other with
  | nil => exact led
  | cons component names ih =>
    obtain ⟨directory, short, there, led⟩ := walk_cons_eq_ok_iff.mp led
    rw [← changed.directories] at directory
    exact walk_cons_eq_ok_iff.mpr ⟨directory, short, changed.holds there, ih led⟩

theorem read (changed : OnlyAt l bytes files files') (found : files.read path = .ok content)
    (elsewhere : files.locate path ≠ .ok l) : files'.read path = .ok content := by
  obtain ⟨other, located, file, holds, unclosed⟩ := read_eq_ok_iff.mp found
  have different : other ≠ l := fun same => elsewhere (same ▸ located)
  obtain ⟨allowed, led⟩ := locate_eq_ok_iff.mp located
  rw [← changed.directories] at file
  rw [← changed.elsewhere other different] at holds
  exact read_eq_ok_iff.mpr
    ⟨other, locate_eq_ok_iff.mpr ⟨allowed, changed.walk led⟩, file, holds, unclosed⟩

end OnlyAt

/-! ### Writing -/

theorem Opens.read_onlyAt (opens : files.Opens path parent last)
    (changed : OnlyAt (parent ++ [last]) bytes files files') : files'.read path = .ok bytes := by
  obtain ⟨before, names, led⟩ := opens.leads
  have directory : files'.isDirectory parent = true := (changed.directories _).trans opens.inside
  have there : files'.holds (parent ++ [last]) = true := by
    rw [holds, changed.here]
    exact Bool.or_true _
  have arrived : files'.walk (.start path) (Location.components path) = .ok (parent ++ [last]) := by
    rw [names, walk_append (changed.walk led), walk_cons_eq_ok_iff, step_of_plain opens.plain]
    exact ⟨directory, opens.short, there, rfl⟩
  exact read_eq_ok_iff.mpr ⟨_, locate_eq_ok_iff.mpr ⟨opens.allowed, arrived⟩,
    (changed.directories _).trans opens.free, changed.here, opens.unclosed⟩

theorem write_eq_ok_iff :
    files.write path bytes = .ok files' ↔
      ∃ target, files.locateTarget path = .ok target ∧ files' = files.put target bytes := by
  rw [write]
  cases files.locateTarget path with
  | error error => simp [Except.map]
  | ok target => simp [Except.map, eq_comm]

theorem write_spec (written : files.write path bytes = .ok files') :
    ∃ target, files.locateTarget path = .ok target ∧ OnlyAt target bytes files files' ∧
      files'.read path = .ok bytes := by
  obtain ⟨target, located, rfl⟩ := write_eq_ok_iff.mp written
  obtain ⟨parent, last, opens, rfl⟩ := exists_opens located
  have changed : OnlyAt (parent ++ [last]) bytes files (files.put (parent ++ [last]) bytes) :=
    onlyAt_put opens.inside opens.free
  exact ⟨_, located, changed, opens.read_onlyAt changed⟩

end LeafPaths.Files
