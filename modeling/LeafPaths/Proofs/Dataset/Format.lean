import LeafPaths.Dataset.Transform
import LeafPaths.Proofs.Json.Input
import LeafPaths.Proofs.Json.Printer

/-!
How each kind of record is spelled. Its reader takes these texts and no others, and its JSON form is
one of them. The text that a dataset is written as is therefore decoded to the same examples.
-/

namespace LeafPaths

open Json (ListOf Quotation Reader RecordOf Size Takes Writes)
open Json.Input (ofChars)

theorem Json.Takes.map {α β : Type} {r : Reader α} {depth : Nat} {lang : Json.Language α}
    {f : α → β} {g : β → α} (takes : Takes (r depth) lang) (back : ∀ a, g (f a) = a)
    (forth : ∀ b, f (g b) = b) :
    Takes (r.map f depth) fun text b => lang text (g b) where
  opens spelled := takes.opens spelled
  sound {input rest b} found := by
    obtain ⟨⟨a, _⟩, read, same⟩ := map_eq_ok_iff.mp found
    cases same
    rw [back]
    exact takes.sound read
  complete {gap text rest b} blank spelled ends := by
    refine map_eq_ok_iff.mpr ⟨(g b, rest), takes.complete blank spelled ends, ?_⟩
    rw [forth]

/-! ### Keys -/

def SampleId.Spelled : Json.Language SampleId
  | input, .number n => input = ofChars (Json.numeral n.toInt)
  | input, .text s => Quotation input s

theorem SampleId.isSimple_of_ofAtom? {v : Json.Scalar} {id : SampleId}
    (known : ofAtom? (.scalar v) = some id) : v.isSimple := by
  cases v with
  | text s => rfl
  | number n =>
    cases n with
    | whole k => rfl
    | fractional => cases known
  | null => cases known
  | bool b => cases known

theorem SampleId.read_eq_ok_iff {depth : Nat} {input rest : Json.Input} {id : SampleId} :
    SampleId.read depth input = .ok (id, rest) ↔
      ∃ v, Json.readAny depth input = .ok (.scalar v, rest) ∧ ofAtom? (.scalar v) = some id := by
  rw [SampleId.read]
  constructor
  · intro found
    split at found
    · cases found
    next atom _ read =>
      split at found
      next known =>
        cases found
        cases atom with
        | scalar v => exact ⟨v, read, known⟩
        | compound => cases known
      next => cases found
  · rintro ⟨v, read, known⟩
    simp only [read, known]

theorem SampleId.accepted_iff {text : Json.Input} {id : SampleId} :
    Json.Accepted (fun v => ofAtom? (.scalar v)) text id ↔ SampleId.Spelled text id := by
  constructor
  · rintro ⟨v, spelled, known⟩
    cases spelled with
    | text spells =>
      cases known
      exact ⟨_, spells, rfl⟩
    | @whole k low high =>
      simp only [ofAtom?] at known
      split at known
      next inRange =>
        cases known
        rw [Spelled, Int64.toInt_ofInt_of_le inRange.1 (Int.lt_add_one_of_le inRange.2)]
      next => cases known
  · intro spelled
    cases id with
    | number n =>
      obtain rfl : text = _ := spelled
      have inRange : n.toInt < UInt64.size := Int.lt_of_le_of_lt n.toInt_le (by decide)
      refine ⟨_, .whole n.minValue_le_toInt inRange, ?_⟩
      simp only [ofAtom?]
      rw [if_pos ⟨n.minValue_le_toInt, n.toInt_le⟩, Int64.ofInt_toInt]
    | text s =>
      obtain ⟨quoted, spells, rfl⟩ := spelled
      exact ⟨_, .text spells, rfl⟩

theorem SampleId.takes_read (depth : Nat) : Takes (SampleId.read depth) SampleId.Spelled := by
  refine (Json.takes_accepted isSimple_of_ofAtom? ?_).congr fun _ _ => accepted_iff
  intro input rest id
  simp only [read_eq_ok_iff, Json.readAny_eq_scalar_iff]
  constructor
  · rintro ⟨v, ⟨p, later, shape, flat, read⟩, known⟩
    exact ⟨p, later, shape, flat, v, read, known⟩
  · rintro ⟨p, later, shape, flat, v, read, known⟩
    exact ⟨v, ⟨p, later, shape, flat, read⟩, known⟩

theorem SampleId.writes (id : SampleId) : Writes id.toJson SampleId.Spelled id := by
  cases id with
  | number n =>
    intro layout level
    rw [toJson, Json.render, Spelled]
  | text s => exact Json.writes_text s

/-! ### Records -/

def Settings.Spelled : Json.Language Settings := fun text s =>
  RecordOf ⟨"max_path_length", Size⟩ ⟨"max_path_width", Size⟩ ⟨"max_contexts", Size⟩ text
    (s.maxLength, s.maxWidth, s.maxContexts)

def Context.Spelled : Json.Language Context := fun text c =>
  RecordOf ⟨"start_token", Quotation⟩ ⟨"path", Quotation⟩ ⟨"end_token", Quotation⟩ text
    (c.start, c.path, c.finish)

def Sample.Spelled : Json.Language Sample := fun text s =>
  RecordOf ⟨"code_id", SampleId.Spelled⟩ ⟨"code", Quotation⟩ ⟨"label", Quotation⟩ text
    (s.id, s.code, s.label)

def Example.Spelled : Json.Language Example := fun text e =>
  RecordOf ⟨"code_id", SampleId.Spelled⟩ ⟨"contexts", ListOf Context.Spelled⟩ ⟨"label", Quotation⟩
    text (e.id, e.contexts, e.label)

theorem Settings.takes_read (depth : Nat) : Takes (Settings.read (depth + 1)) Settings.Spelled :=
  (Json.takes_readRecord (by decide) (Json.takes_readSize depth) (Json.takes_readSize depth)
    (Json.takes_readSize depth)).map (fun _ => rfl) fun _ => rfl

theorem Context.takes_read (depth : Nat) : Takes (Context.read (depth + 1)) Context.Spelled :=
  (Json.takes_readRecord (by decide) (Json.takes_readText depth) (Json.takes_readText depth)
    (Json.takes_readText depth)).map (fun _ => rfl) fun _ => rfl

theorem Sample.takes_read (depth : Nat) : Takes (Sample.read (depth + 1)) Sample.Spelled :=
  (Json.takes_readRecord (by decide) (SampleId.takes_read depth) (Json.takes_readText depth)
    (Json.takes_readText depth)).map (fun _ => rfl) fun _ => rfl

theorem Example.takes_read (depth : Nat) : Takes (Example.read (depth + 3)) Example.Spelled :=
  (Json.takes_readRecord (by decide) (SampleId.takes_read (depth + 2))
    (Json.takes_readList (Context.takes_read depth)) (Json.takes_readText (depth + 2))).map
      (fun _ => rfl) fun _ => rfl

theorem Settings.writes (s : Settings) : Writes s.toJson Settings.Spelled s :=
  Json.writes_record (by decide) (Json.writes_size _) (Json.writes_size _) (Json.writes_size _)

theorem Context.writes (c : Context) : Writes c.toJson Context.Spelled c :=
  Json.writes_record (by decide) (Json.writes_text _) (Json.writes_text _) (Json.writes_text _)

theorem Sample.writes (s : Sample) : Writes s.toJson Sample.Spelled s :=
  Json.writes_record (by decide) s.id.writes (Json.writes_text _) (Json.writes_text _)

theorem Example.writes (e : Example) : Writes e.toJson Example.Spelled e :=
  Json.writes_record (by decide) e.id.writes (Json.writes_list_map Context.writes e.contexts)
    (Json.writes_text _)

namespace Dataset

/-! ### Files of samples -/

/-- The bytes are those of a list of the samples. -/
def Spells (bytes : ByteArray) (samples : List Sample) : Prop :=
  ∃ input, Json.Input.Decodes bytes input ∧
    Json.Document (ListOf Sample.Spelled) input samples

theorem read_eq_ok_iff {bytes : ByteArray} {samples : List Sample} :
    read bytes = .ok samples ↔ Spells bytes samples := by
  rw [read, Json.readDocument_eq_ok_iff (Json.takes_readList (Sample.takes_read 125))]
  constructor
  · intro document
    exact ⟨_, Json.Input.decodes_ofBytes bytes, document⟩
  · rintro ⟨input, decodes, document⟩
    rwa [Json.Input.ofBytes_eq_iff.mpr decodes]

theorem read_print (layout : Json.Layout) (samples : List Sample) :
    read ((Json.list (samples.map Sample.toJson)).print layout).toUTF8 = .ok samples := by
  rw [read, Json.ofBytes_toUTF8]
  exact Json.decode_print (Json.takes_readList (Sample.takes_read 125))
    (Json.writes_list_map Sample.writes samples) layout

/-! ### Files of examples -/

def readExamples (bytes : ByteArray) : Except Json.Fault (List Example) :=
  Json.readDocument (Json.readList Example.read) (.ofBytes bytes)

theorem readExamples_print (examples : List Example) :
    readExamples (print examples).toUTF8 = .ok examples := by
  rw [readExamples, Json.ofBytes_toUTF8]
  exact Json.decode_print (Json.takes_readList (Example.takes_read 123))
    (Json.writes_list_map Example.writes examples) _

/-- Each kind of record is read back from the text that is written of it, on one line or on many. A
key that was a number comes back as that number, and one that was a text as that text, also where
the text spells a number. -/
theorem records_read_back (layout : Json.Layout) :
    (∀ examples, readExamples (print examples).toUTF8 = .ok examples) ∧
      (∀ s : Sample, Sample.read.decode (s.toJson.print layout) = .ok s) ∧
      (∀ c : Context, Context.read.decode (c.toJson.print layout) = .ok c) ∧
      (∀ s : Settings, Settings.read.decode (s.toJson.print layout) = .ok s) ∧
      (∀ n, SampleId.read.decode ((SampleId.number n).toJson.print layout) = .ok (.number n)) ∧
      ∀ s, SampleId.read.decode ((SampleId.text s).toJson.print layout) = .ok (.text s) := by
  have key : ∀ id : SampleId, SampleId.read.decode (id.toJson.print layout) = .ok id :=
    fun id => Json.decode_print (SampleId.takes_read _) id.writes layout
  exact ⟨readExamples_print,
    fun s => Json.decode_print (Sample.takes_read 126) s.writes layout,
    fun c => Json.decode_print (Context.takes_read 126) c.writes layout,
    fun s => Json.decode_print (Settings.takes_read 126) s.writes layout,
    fun n => key (.number n), fun s => key (.text s)⟩

end Dataset
end LeafPaths
