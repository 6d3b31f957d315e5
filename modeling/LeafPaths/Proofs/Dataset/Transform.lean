import LeafPaths.Dataset.Transform
import LeafPaths.Proofs.Shuffle.Draw
import LeafPaths.Proofs.Shuffle.Order

/-!
What becomes of the samples of a dataset. Each is extracted by itself; the first that fails is the
fault of the whole, and when none does the records are moved as wholes, by a permutation that knows
the source of its words and their number only.
-/

namespace LeafPaths

variable {grammar : Grammar} {settings : Settings} {source : Shuffle.Source}

theorem Grammar.exists_extract_iff (settings : Settings) {source : String} :
    (∃ contexts, grammar.extract settings source = .ok contexts) ↔
      ∃ snippet, grammar.parse source = .ok snippet := by
  rw [Grammar.extract]
  cases grammar.parse source with
  | error fault => simp [Except.map]
  | ok snippet => simp [Except.map]

theorem Grammar.extract_eq_error_iff (settings : Settings) {source : String} {fault : Fault} :
    grammar.extract settings source = .error fault ↔ grammar.parse source = .error fault := by
  rw [Grammar.extract]
  cases grammar.parse source with
  | error fault => simp [Except.map]
  | ok snippet => simp [Except.map]

namespace Sample

def record (s : Sample) (contexts : List Context) : Example := ⟨s.id, contexts, s.label⟩

variable {s : Sample}

theorem extract_eq_ok_iff {e : Example} :
    s.extract grammar settings = .ok e ↔
      ∃ contexts, grammar.extract settings s.code = .ok contexts ∧ e = s.record contexts := by
  rw [Sample.extract]
  cases grammar.extract settings s.code with
  | error fault => simp
  | ok contexts => simp [record, eq_comm]

theorem extract_eq_error_iff (settings : Settings) {f : SampleFault} :
    s.extract grammar settings = .error f ↔
      f.id = s.id ∧ grammar.parse s.code = .error f.fault := by
  rw [Sample.extract, ← Grammar.extract_eq_error_iff settings]
  cases grammar.extract settings s.code with
  | error fault =>
    obtain ⟨id, fault'⟩ := f
    simp [eq_comm]
  | ok contexts => simp

theorem exists_extract_iff (settings : Settings) :
    (∃ e, s.extract grammar settings = .ok e) ↔ ∃ snippet, grammar.parse s.code = .ok snippet := by
  rw [← Grammar.exists_extract_iff settings]
  constructor
  · rintro ⟨e, extracted⟩
    obtain ⟨contexts, found, -⟩ := extract_eq_ok_iff.mp extracted
    exact ⟨contexts, found⟩
  · rintro ⟨contexts, found⟩
    exact ⟨_, extract_eq_ok_iff.mpr ⟨contexts, found, rfl⟩⟩

end Sample

namespace Dataset

variable {samples : List Sample} {examples : List Example} {f : SampleFault}

/-! ### Extraction -/

theorem extract_cons_of_ok {s : Sample} {e : Example} (first : s.extract grammar settings = .ok e) :
    extract grammar settings (s :: samples) =
      (extract grammar settings samples).map (e :: ·) := by
  rw [extract, first]
  cases extract grammar settings samples <;> rfl

theorem extract_cons_of_error {s : Sample} (first : s.extract grammar settings = .error f) :
    extract grammar settings (s :: samples) = .error f := by
  rw [extract, first]

theorem extract_eq_ok_iff :
    extract grammar settings samples = .ok examples ↔
      List.Forall₂ (fun s e => s.extract grammar settings = .ok e) samples examples := by
  induction samples generalizing examples with
  | nil => simp [extract, eq_comm]
  | cons s samples ih =>
    cases first : s.extract grammar settings with
    | error fault =>
      rw [extract_cons_of_error first]
      cases examples <;> simp [first]
    | ok e =>
      rw [extract_cons_of_ok first]
      cases later : extract grammar settings samples with
      | error fault => cases examples <;> simp [Except.map, first, ← ih, later]
      | ok others => cases examples <;> simp [Except.map, first, ← ih, later]

theorem exists_extract_iff (settings : Settings) :
    (∃ examples, extract grammar settings samples = .ok examples) ↔
      ∀ s ∈ samples, ∃ snippet, grammar.parse s.code = .ok snippet := by
  simp only [extract_eq_ok_iff, ← Sample.exists_extract_iff settings]
  induction samples with
  | nil => simp
  | cons s samples ih =>
    rw [List.forall_mem_cons, ← ih]
    constructor
    · rintro ⟨_, _ | ⟨first, later⟩⟩
      exact ⟨⟨_, first⟩, _, later⟩
    · rintro ⟨⟨e, first⟩, examples, later⟩
      exact ⟨e :: examples, .cons first later⟩

theorem extract_eq_error_iff :
    extract grammar settings samples = .error f ↔
      ∃ before s after, samples = before ++ s :: after ∧
        (∀ b ∈ before, ∃ snippet, grammar.parse b.code = .ok snippet) ∧
        f.id = s.id ∧ grammar.parse s.code = .error f.fault := by
  simp only [← Sample.extract_eq_error_iff settings,
    ← Sample.exists_extract_iff settings]
  induction samples with
  | nil => simp [extract]
  | cons s samples ih =>
    cases first : s.extract grammar settings with
    | error fault =>
      rw [extract_cons_of_error first]
      constructor
      · rintro ⟨⟩
        exact ⟨[], s, samples, rfl, List.forall_mem_nil _, first⟩
      · rintro ⟨_ | ⟨b, before⟩, s', after, split, passed, failed⟩
        · obtain ⟨rfl, -⟩ := List.cons.inj split
          exact congrArg Except.error (Except.error.inj (first.symm.trans failed))
        · obtain ⟨rfl, -⟩ := List.cons.inj split
          obtain ⟨e, extracted⟩ := passed s List.mem_cons_self
          rw [first] at extracted
          cases extracted
    | ok e =>
      rw [extract_cons_of_ok first]
      have tail : (extract grammar settings samples).map (e :: ·) = .error f ↔
          extract grammar settings samples = .error f := by
        cases extract grammar settings samples <;> simp [Except.map]
      rw [tail, ih]
      constructor
      · rintro ⟨before, s', after, rfl, passed, failed⟩
        exact ⟨s :: before, s', after, rfl, List.forall_mem_cons.mpr ⟨⟨e, first⟩, passed⟩, failed⟩
      · rintro ⟨_ | ⟨b, before⟩, s', after, split, passed, failed⟩
        · obtain ⟨rfl, -⟩ := List.cons.inj split
          rw [first] at failed
          cases failed
        · obtain ⟨rfl, rfl⟩ := List.cons.inj split
          exact ⟨before, s', after, rfl, (List.forall_mem_cons.mp passed).2, failed⟩

/-! ### Transformation -/

theorem transform_eq_ok_iff :
    transform grammar settings source samples = .ok examples ↔
      ∃ ordered, extract grammar settings samples = .ok ordered ∧
        examples = Shuffle.shuffle source ordered := by
  rw [transform]
  cases extract grammar settings samples with
  | error fault => simp [Except.map]
  | ok ordered => simp [Except.map, eq_comm]

theorem transform_eq_error_iff :
    transform grammar settings source samples = .error f ↔
      extract grammar settings samples = .error f := by
  rw [transform]
  cases extract grammar settings samples with
  | error fault => simp [Except.map]
  | ok ordered => simp [Except.map]

theorem exists_transform_iff (settings : Settings) (source : Shuffle.Source) :
    (∃ examples, transform grammar settings source samples = .ok examples) ↔
      ∀ s ∈ samples, ∃ snippet, grammar.parse s.code = .ok snippet := by
  rw [← exists_extract_iff settings]
  constructor
  · rintro ⟨examples, transformed⟩
    obtain ⟨ordered, extracted, -⟩ := transform_eq_ok_iff.mp transformed
    exact ⟨ordered, extracted⟩
  · rintro ⟨ordered, extracted⟩
    exact ⟨_, transform_eq_ok_iff.mpr ⟨ordered, extracted, rfl⟩⟩

theorem length_of_transform (transformed : transform grammar settings source samples = .ok examples) :
    examples.length = samples.length := by
  obtain ⟨ordered, extracted, rfl⟩ := transform_eq_ok_iff.mp transformed
  rw [Shuffle.length_shuffle, (extract_eq_ok_iff.mp extracted).length_eq]

theorem getElem?_of_transform {n : Nat} (length : samples.length = n)
    (transformed : transform grammar settings source samples = .ok examples) (k : Fin n) :
    ∃ s contexts, samples[(Shuffle.origin source n k).val]? = some s ∧
      grammar.extract settings s.code = .ok contexts ∧
      examples[k.val]? = some (s.record contexts) := by
  obtain ⟨ordered, extracted, rfl⟩ := transform_eq_ok_iff.mp transformed
  obtain ⟨same, records⟩ := List.forall₂_iff_get.mp (extract_eq_ok_iff.mp extracted)
  have here : (Shuffle.origin source n k).val < samples.length := by omega
  have there : (Shuffle.origin source n k).val < ordered.length := by omega
  obtain ⟨contexts, found, record⟩ := Sample.extract_eq_ok_iff.mp (records _ here there)
  refine ⟨_, contexts, List.getElem?_eq_getElem here, found, ?_⟩
  rw [Shuffle.getElem?_shuffle source (same.symm.trans length), List.getElem?_eq_getElem there]
  exact congrArg some record

theorem extract_modify {i : Nat} {code : String} {contexts : List Context}
    (extracted : extract grammar settings samples = .ok examples)
    (changed : grammar.extract settings code = .ok contexts) :
    extract grammar settings (samples.modify i fun s => { s with code }) =
      .ok (examples.modify i fun e => { e with contexts }) := by
  rw [extract_eq_ok_iff] at extracted ⊢
  induction extracted generalizing i with
  | nil => simp
  | cons first later ih =>
    cases i with
    | zero =>
      obtain ⟨_, -, rfl⟩ := Sample.extract_eq_ok_iff.mp first
      exact .cons (Sample.extract_eq_ok_iff.mpr ⟨contexts, changed, rfl⟩) later
    | succ i => exact .cons first ih

theorem transform_modify {n : Nat} (length : samples.length = n) {i : Fin n} {code : String}
    {contexts : List Context} (transformed : transform grammar settings source samples = .ok examples)
    (changed : grammar.extract settings code = .ok contexts) :
    transform grammar settings source (samples.modify i fun s => { s with code }) =
      .ok (examples.modify ((Shuffle.origin source n).symm i) fun e => { e with contexts }) := by
  obtain ⟨ordered, extracted, rfl⟩ := transform_eq_ok_iff.mp transformed
  have same := (extract_eq_ok_iff.mp extracted).length_eq
  rw [← Shuffle.shuffle_modify source (same.symm.trans length)]
  exact transform_eq_ok_iff.mpr ⟨_, extract_modify extracted changed, rfl⟩

/-- For each seed and number of samples there is one permutation by which all datasets are moved,
a record at a time. The swaps that make it up stay within the list. -/
theorem transform_moves_whole_records (seed : UInt64) (n : Nat) :
    ∃ place : Equiv.Perm (Fin n),
      (n < UInt32.size → ∀ i j : Nat,
        (Shuffle.choices (Shuffle.word seed) n 0 .start)[i]? = some j → j ≤ i) ∧
      ∀ (grammar : Grammar) (settings : Settings) (samples : List Sample), samples.length = n →
        ((∃ examples, transform grammar settings (.seed seed) samples = .ok examples) ↔
          ∀ s ∈ samples, ∃ snippet, grammar.parse s.code = .ok snippet) ∧
        (∀ examples, transform grammar settings (.seed seed) samples = .ok examples →
          examples.length = n ∧
            (∀ k : Fin n, ∃ s contexts, samples[(place k).val]? = some s ∧
              grammar.extract settings s.code = .ok contexts ∧
              examples[k.val]? = some ⟨s.id, contexts, s.label⟩) ∧
            ∀ (i : Fin n) code contexts, grammar.extract settings code = .ok contexts →
              transform grammar settings (.seed seed) (samples.modify i fun s => { s with code }) =
                .ok (examples.modify (place.symm i) fun e => { e with contexts })) ∧
        (∀ f, transform grammar settings (.seed seed) samples = .error f ↔
          ∃ before s after, samples = before ++ s :: after ∧
            (∀ b ∈ before, ∃ snippet, grammar.parse b.code = .ok snippet) ∧
            f.id = s.id ∧ grammar.parse s.code = .error f.fault) := by
  refine ⟨Shuffle.origin (.seed seed) n, ?_, ?_⟩
  · intro small i j chosen
    have bounded := Shuffle.choices_le Shuffle.serves_start (by omega) chosen
    omega
  · intro grammar settings samples length
    refine ⟨exists_transform_iff settings _, ?_, fun f => transform_eq_error_iff.trans extract_eq_error_iff⟩
    intro examples transformed
    refine ⟨(length_of_transform transformed).trans length,
      getElem?_of_transform length transformed, ?_⟩
    intro i code contexts changed
    exact transform_modify length transformed changed

end Dataset
end LeafPaths
