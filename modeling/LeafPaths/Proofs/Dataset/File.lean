import Mathlib
import LeafPaths.Dataset.File
import LeafPaths.Proofs.Dataset.Format
import LeafPaths.Proofs.Dataset.Transform
import LeafPaths.Proofs.Files
import LeafPaths.Proofs.Snippet.Attempts

/-!
A dataset file is transformed as a whole or not at all. Every way to fail comes before the one
write, and the file that is written holds the examples that were made of the old content of the
input, also where the input is overwritten.
-/

namespace LeafPaths.Dataset

variable {grammar : Grammar} {settings : Settings} {input output : String} {source : Shuffle.Source}
  {files files' : Files} {samples : List Sample} {examples ordered : List Example}
  {summary : Summary}

/-! ### Summaries -/

theorem Summary.contexts_of (examples : List Example) :
    (Summary.of examples).contexts = (examples.map (·.contexts.length)).sum :=
  List.length_flatMap

theorem Summary.of_perm (moved : examples.Perm ordered) :
    Summary.of examples = Summary.of ordered := by
  rw [Summary.of, Summary.of, moved.length_eq, (moved.flatMap_right _).length_eq]

theorem Summary.of_shuffle (source : Shuffle.Source) (examples : List Example) :
    Summary.of (Shuffle.shuffle source examples) = Summary.of examples :=
  Summary.of_perm (Shuffle.perm_shuffle source examples)

/-- The words move the examples; they do not decide whether there are any. -/
theorem transform_other_source
    (transformed : transform grammar settings source samples = .ok examples)
    (other : Shuffle.Source) :
    ∃ moved, transform grammar settings other samples = .ok moved ∧
      Summary.of moved = Summary.of examples := by
  obtain ⟨ordered, extracted, rfl⟩ := transform_eq_ok_iff.mp transformed
  refine ⟨_, transform_eq_ok_iff.mpr ⟨ordered, extracted, rfl⟩, ?_⟩
  rw [Summary.of_shuffle, Summary.of_shuffle]

/-! ### Outcomes -/

theorem transformFile_cases (grammar : Grammar) (settings : Settings) (input output : String)
    (source : Shuffle.Source) (files : Files) :
    (∃ error, transformFile grammar settings input output source files = (.error error, files)) ∨
      ∃ bytes samples examples files', files.read input = .ok bytes ∧ read bytes = .ok samples ∧
        transform grammar settings source samples = .ok examples ∧
        files.write output (print examples).toUTF8 = .ok files' ∧
        transformFile grammar settings input output source files = (.ok (.of examples), files') := by
  rw [transformFile]
  rcases found : files.read input with error | bytes
  · cases error <;> exact Or.inl ⟨_, rfl⟩
  rcases decoded : read bytes with fault | samples
  · exact Or.inl ⟨.format fault, by simp only [decoded]⟩
  rcases transformed : transform grammar settings source samples with fault | examples
  · exact Or.inl ⟨.sample fault, by simp only [decoded, transformed]⟩
  rcases written : files.write output (print examples).toUTF8 with error | files'
  · exact Or.inl ⟨.file error, by simp only [decoded, transformed, written]⟩
  · exact Or.inr ⟨bytes, samples, examples, files', rfl, decoded, transformed, written,
      by simp only [decoded, transformed, written]⟩

theorem transformFile_eq_ok_iff :
    transformFile grammar settings input output source files = (.ok summary, files') ↔
      ∃ bytes samples examples, files.read input = .ok bytes ∧ read bytes = .ok samples ∧
        transform grammar settings source samples = .ok examples ∧
        files.write output (print examples).toUTF8 = .ok files' ∧ summary = .of examples := by
  constructor
  · intro done
    rcases transformFile_cases grammar settings input output source files with ⟨error, failed⟩ |
      ⟨bytes, samples, examples, after, found, decoded, transformed, written, outcome⟩
    · cases failed.symm.trans done
    · cases outcome.symm.trans done
      exact ⟨bytes, samples, examples, found, decoded, transformed, written, rfl⟩
  · rintro ⟨bytes, samples, examples, found, decoded, transformed, written, rfl⟩
    simp only [transformFile, found, decoded, transformed, written]

theorem files_of_transformFile_error {error : Error}
    (failed : transformFile grammar settings input output source files = (.error error, files')) :
    files' = files := by
  rcases transformFile_cases grammar settings input output source files with ⟨error, unchanged⟩ |
    ⟨_, _, _, _, -, -, -, -, outcome⟩
  · exact (Prod.mk.inj (failed.symm.trans unchanged)).2
  · cases outcome.symm.trans failed

theorem exists_transformFile_iff :
    (∃ summary files',
        transformFile grammar settings input output source files = (.ok summary, files')) ↔
      ∃ bytes samples target, files.read input = .ok bytes ∧ read bytes = .ok samples ∧
        (∀ s ∈ samples, ∃ snippet, grammar.parse s.code = .ok snippet) ∧
        files.locateTarget output = .ok target := by
  constructor
  · rintro ⟨summary, files', done⟩
    obtain ⟨bytes, samples, examples, found, decoded, transformed, written, -⟩ :=
      transformFile_eq_ok_iff.mp done
    obtain ⟨target, located, -⟩ := Files.write_spec written
    exact ⟨bytes, samples, target, found, decoded,
      (exists_transform_iff settings source).mp ⟨examples, transformed⟩, located⟩
  · rintro ⟨bytes, samples, target, found, decoded, parsed, located⟩
    obtain ⟨examples, transformed⟩ := (exists_transform_iff settings source).mpr parsed
    exact ⟨_, _, transformFile_eq_ok_iff.mpr ⟨bytes, samples, examples, found, decoded, transformed,
      Files.write_eq_ok_iff.mpr ⟨target, located, rfl⟩, rfl⟩⟩

theorem transformFile_other_source
    (done : transformFile grammar settings input output source files = (.ok summary, files'))
    (other : Shuffle.Source) :
    (transformFile grammar settings input output other files).1 = .ok summary := by
  obtain ⟨bytes, samples, examples, found, decoded, transformed, written, rfl⟩ :=
    transformFile_eq_ok_iff.mp done
  obtain ⟨moved, transformed, same⟩ := transform_other_source transformed other
  obtain ⟨target, located, -⟩ := Files.write_eq_ok_iff.mp written
  exact congrArg Prod.fst (transformFile_eq_ok_iff.mpr ⟨bytes, samples, moved, found, decoded,
    transformed, Files.write_eq_ok_iff.mpr ⟨target, located, rfl⟩, same.symm⟩)

/-- The `bytes` are those that the input had before; the output is another file or the same. Only
the texts of the grammar are read, so an input that is none of them changes nothing. -/
theorem transformFile_all_or_nothing (grammar : Grammar) (settings : Settings)
    (input output : String) (source : Shuffle.Source) (files : Files) :
    (∀ error files', transformFile grammar settings input output source files =
        (.error error, files') → files' = files) ∧
      (∀ summary files', transformFile grammar settings input output source files =
          (.ok summary, files') →
        ∃ bytes samples examples target text,
          files.read input = .ok bytes ∧ read bytes = .ok samples ∧
          transform grammar settings source samples = .ok examples ∧
          files.locateTarget output = .ok target ∧
          files'.read output = .ok text ∧ readExamples text = .ok examples ∧
          Files.OnlyAt target text files files' ∧
          (∀ path content, files.read path = .ok content → files.locate path ≠ .ok target →
            files'.read path = .ok content) ∧
          summary.examples = examples.length ∧
          summary.contexts = (examples.map (·.contexts.length)).sum ∧
          ∀ other, (transformFile grammar settings input output other files).1 = .ok summary) ∧
      ((∃ summary files', transformFile grammar settings input output source files =
          (.ok summary, files')) ↔
        ∃ bytes samples target, files.read input = .ok bytes ∧ read bytes = .ok samples ∧
          (∀ s ∈ samples, ∃ snippet, grammar.parse s.code = .ok snippet) ∧
          files.locateTarget output = .ok target) ∧
      (∀ bytes samples, read bytes = .ok samples ↔ Spells bytes samples) ∧
      ∀ layout samples,
        read ((Json.list (samples.map Sample.toJson)).print layout).toUTF8 = .ok samples := by
  refine ⟨fun error files' => files_of_transformFile_error, ?_, exists_transformFile_iff,
    fun bytes samples => read_eq_ok_iff, read_print⟩
  intro summary files' done
  obtain ⟨bytes, samples, examples, found, decoded, transformed, written, rfl⟩ :=
    transformFile_eq_ok_iff.mp done
  obtain ⟨target, located, changed, reread⟩ := Files.write_spec written
  exact ⟨bytes, samples, examples, target, _, found, decoded, transformed, located, reread,
    readExamples_print examples, changed, fun path content => changed.read, rfl,
    Summary.contexts_of examples, transformFile_other_source done⟩

def oneSample : List Sample := [⟨.number 7, "", "a"⟩]

def mixedFiles : Files :=
  ⟨[(["data.json"], .file ((Json.list (oneSample.map Sample.toJson)).print .compact).toUTF8),
    (["raw.json"], .file ⟨#[0xff]⟩)]⟩

def emptyModule : Cst := .node ⟨"module", true, false, false, false, false, 0, 0, 0, 0, none⟩ []

def emptyGrammar : Grammar := fun _ => emptyModule

theorem exists_of_transform_oneSample
    (transformed : transform grammar settings source oneSample = .ok examples) :
    ∃ contexts, examples = [⟨.number 7, contexts, "a"⟩] := by
  obtain ⟨ordered, extracted, rfl⟩ := transform_eq_ok_iff.mp transformed
  obtain _ | ⟨first, later⟩ := extract_eq_ok_iff.mp extracted
  cases later
  obtain ⟨contexts, -, rfl⟩ := Sample.extract_eq_ok_iff.mp first
  exact ⟨contexts, List.perm_singleton.mp (Shuffle.perm_shuffle source _)⟩

/-- A dataset takes its own place; bytes that are no text leave it as it is. -/
theorem transformFile_of_mixedFiles :
    (∃ summary files' contexts text,
        transformFile emptyGrammar {} "data.json" "data.json" (.seed 3) mixedFiles =
          (.ok summary, files') ∧
        files'.read "data.json" = .ok text ∧
        readExamples text = .ok [⟨.number 7, contexts, "a"⟩] ∧
        summary.examples = 1 ∧ summary.contexts = contexts.length) ∧
      ∃ error, transformFile emptyGrammar {} "raw.json" "data.json" (.seed 3) mixedFiles =
        (.error error, mixedFiles) := by
  constructor
  · obtain ⟨-, written, succeeds, -, printed⟩ := transformFile_all_or_nothing emptyGrammar {}
      "data.json" "data.json" (.seed 3) mixedFiles
    have located : mixedFiles.locateTarget "data.json" = .ok ["data.json"] := by cbv
    have found : mixedFiles.read "data.json" =
        .ok ((Json.list (oneSample.map Sample.toJson)).print .compact).toUTF8 :=
      Files.read_eq_ok_iff.mpr ⟨["data.json"], by cbv, by cbv, rfl, by cbv⟩
    have sound : emptyModule.Sound := Cst.sound_iff.mpr (by decide +kernel)
    have parsed : ∀ s ∈ oneSample, ∃ snippet, emptyGrammar.parse s.code = .ok snippet :=
      fun _ _ => ⟨_, Grammar.parse_of_sound sound⟩
    obtain ⟨summary, files', done⟩ :=
      succeeds.mpr ⟨_, oneSample, _, found, printed .compact oneSample, parsed, located⟩
    obtain ⟨bytes, samples, examples, _, text, same, decoded, transformed, -, reread, listed, -, -,
      count, total, -⟩ := written summary files' done
    obtain rfl := Except.ok.inj (found.symm.trans same)
    obtain rfl := Except.ok.inj ((printed .compact oneSample).symm.trans decoded)
    obtain ⟨contexts, rfl⟩ := exists_of_transform_oneSample transformed
    exact ⟨summary, files', contexts, text, done, reread, listed, count, by simpa using total⟩
  · obtain ⟨unchanged, -, succeeds, -⟩ := transformFile_all_or_nothing emptyGrammar {}
      "raw.json" "data.json" (.seed 3) mixedFiles
    have found : mixedFiles.read "raw.json" = .ok ⟨#[0xff]⟩ := by cbv
    have refused : read ⟨#[0xff]⟩ = .error .malformed := by cbv
    rcases outcome : transformFile emptyGrammar {} "raw.json" "data.json" (.seed 3) mixedFiles with
      ⟨error | summary, files'⟩
    · exact ⟨error, by rw [unchanged error files' outcome]⟩
    · obtain ⟨bytes, samples, _, same, decoded, -⟩ := succeeds.mp ⟨summary, files', outcome⟩
      obtain rfl := Except.ok.inj (found.symm.trans same)
      cases refused.symm.trans decoded

end LeafPaths.Dataset
