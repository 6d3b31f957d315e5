import LeafPaths.Dataset.Transform
import LeafPaths.Files

/-!
Transforming a dataset file. The input is read before anything else and the output is written
last, so nothing is written unless all samples could be parsed.
-/

namespace LeafPaths.Dataset

inductive Error where
  | file (error : FileError)
  /-- The input is no list of samples. -/
  | format (fault : Json.Fault)
  /-- The input could be opened and not be read. -/
  | reading (error : FileError)
  | sample (fault : SampleFault)
  deriving DecidableEq, Repr

/-- Transforms the dataset in `input` and writes the examples to `output`. The files are those
that are there afterwards, whether it fails or not. -/
def transformFile (grammar : Grammar) (settings : Settings) (input output : String)
    (source : Shuffle.Source) (files : Files) : Except Error Summary × Files :=
  match files.read input with
  | .error .isADirectory => (.error (.reading .isADirectory), files)
  | .error error => (.error (.file error), files)
  | .ok bytes =>
    match read bytes with
    | .error fault => (.error (.format fault), files)
    | .ok samples =>
      match transform grammar settings source samples with
      | .error fault => (.error (.sample fault), files)
      | .ok examples =>
        match files.write output (print examples).toUTF8 with
        | .error error => (.error (.file error), files)
        | .ok files => (.ok (.of examples), files)

end LeafPaths.Dataset
