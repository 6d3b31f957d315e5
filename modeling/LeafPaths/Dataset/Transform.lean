import LeafPaths.Dataset
import LeafPaths.Extraction
import LeafPaths.Shuffle

/-!
From labelled snippets to shuffled examples. One snippet that cannot be parsed spoils the whole
dataset; the first in the order of the input is reported.
-/

namespace LeafPaths

/-- A snippet that cannot be parsed. -/
structure SampleFault where
  id : SampleId
  fault : Fault
  deriving DecidableEq, Repr

def SampleFault.message (f : SampleFault) : String :=
  "sample " ++ f.id.display ++ ": " ++ f.fault.message

def Sample.extract (grammar : Grammar) (settings : Settings) (s : Sample) :
    Except SampleFault Example :=
  match grammar.extract settings s.code with
  | .ok contexts => .ok ⟨s.id, contexts, s.label⟩
  | .error fault => .error ⟨s.id, fault⟩

namespace Dataset

/-- The examples of all samples, in their order. -/
def extract (grammar : Grammar) (settings : Settings) :
    List Sample → Except SampleFault (List Example)
  | [] => .ok []
  | s :: samples =>
    match s.extract grammar settings with
    | .error fault => .error fault
    | .ok e =>
      match extract grammar settings samples with
      | .error fault => .error fault
      | .ok examples => .ok (e :: examples)

/-- The examples of all samples, shuffled. -/
def transform (grammar : Grammar) (settings : Settings) (source : Shuffle.Source)
    (samples : List Sample) : Except SampleFault (List Example) :=
  (extract grammar settings samples).map (Shuffle.shuffle source)

/-- What a transformation is summed up to. -/
structure Summary where
  examples : Nat
  contexts : Nat
  deriving DecidableEq, Repr

def Summary.of (examples : List Example) : Summary :=
  ⟨examples.length, (examples.flatMap (·.contexts)).length⟩

/-! ### Text -/

def read (bytes : ByteArray) : Except Json.Fault (List Sample) :=
  Json.readDocument (Json.readList Sample.read) (.ofBytes bytes)

/-- A dataset is written with four blanks for each level. -/
def print (examples : List Example) : String :=
  Json.print (.indented 4) (.list (examples.map Example.toJson))

end Dataset
end LeafPaths
