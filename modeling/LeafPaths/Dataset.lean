import LeafPaths.Context
import LeafPaths.Json
import LeafPaths.Json.Reader
import LeafPaths.Settings

/-!
Datasets: labelled snippets, and the same with a snippet's contexts in the place of its code. Each
kind of record has one JSON form, given by a reader and a document.
-/

namespace LeafPaths

/-- The key of a snippet in its dataset. -/
inductive SampleId where
  | number (n : Int64)
  | text (s : String)
  deriving DecidableEq, Repr

structure Sample where
  id : SampleId
  code : String
  label : String
  deriving DecidableEq, Repr

structure Example where
  id : SampleId
  contexts : List Context
  label : String
  deriving DecidableEq, Repr

def SampleId.display : SampleId → String
  | number n => String.ofList (Json.numeral n.toInt)
  | text s => s

/-! ### JSON forms -/

namespace Json

def Reader.map (f : α → β) (r : Reader α) : Reader β := fun depth input =>
  (r depth input).map fun found => (f found.1, found.2)

end Json

open Json (Reader)

/-- A whole number is a key of its own kind even when a text looks the same. -/
def SampleId.ofAtom? : Json.Atom → Option SampleId
  | .scalar (.number (.whole n)) =>
    if Int64.minValue.toInt ≤ n ∧ n ≤ Int64.maxValue.toInt then some (.number (.ofInt n)) else none
  | .scalar (.text s) => some (.text s)
  | _ => none

/-- A key is told by its value, so any value is read before it is refused. -/
def SampleId.read : Reader SampleId := fun depth input =>
  match Json.readAny depth input with
  | .error fault => .error fault
  | .ok (atom, rest) =>
    match ofAtom? atom with
    | some id => .ok (id, rest)
    | none => .error .mismatched

def SampleId.toJson : SampleId → Json
  | number n => .number n.toInt
  | text s => .text s

def Settings.read : Reader Settings :=
  .map (fun (l, w, c) => ⟨l, w, c⟩) <|
    Json.readRecord ⟨"max_path_length", Json.readSize⟩ ⟨"max_path_width", Json.readSize⟩
      ⟨"max_contexts", Json.readSize⟩

def Settings.toJson (s : Settings) : Json :=
  .record [("max_path_length", .number s.maxLength.toNat),
    ("max_path_width", .number s.maxWidth.toNat), ("max_contexts", .number s.maxContexts.toNat)]

def Context.read : Reader Context :=
  .map (fun (start, path, finish) => ⟨start, path, finish⟩) <|
    Json.readRecord ⟨"start_token", Json.readText⟩ ⟨"path", Json.readText⟩
      ⟨"end_token", Json.readText⟩

def Context.toJson (c : Context) : Json :=
  .record [("start_token", .text c.start), ("path", .text c.path), ("end_token", .text c.finish)]

def Sample.read : Reader Sample :=
  .map (fun (id, code, label) => ⟨id, code, label⟩) <|
    Json.readRecord ⟨"code_id", SampleId.read⟩ ⟨"code", Json.readText⟩ ⟨"label", Json.readText⟩

def Sample.toJson (s : Sample) : Json :=
  .record [("code_id", s.id.toJson), ("code", .text s.code), ("label", .text s.label)]

def Example.read : Reader Example :=
  .map (fun (id, contexts, label) => ⟨id, contexts, label⟩) <|
    Json.readRecord ⟨"code_id", SampleId.read⟩ ⟨"contexts", Json.readList Context.read⟩
      ⟨"label", Json.readText⟩

def Example.toJson (e : Example) : Json :=
  .record [("code_id", e.id.toJson), ("contexts", .list (e.contexts.map Context.toJson)),
    ("label", .text e.label)]

end LeafPaths
