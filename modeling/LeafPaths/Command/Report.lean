/-!
How a failed command is reported: its message, and below it the chain of causes.
-/

namespace LeafPaths.Command

structure Failure where
  message : String
  /-- The nearest cause first. -/
  causes : List String
  deriving DecidableEq, Repr

/-- The text with the given blanks before each line but the first. -/
def hang (width : Nat) (s : String) : String :=
  ("\n" ++ String.ofList (List.replicate width ' ')).intercalate (s.splitOn "\n")

def padLeft (width : Nat) (s : String) : String :=
  String.ofList (List.replicate (width - s.length) ' ') ++ s

/-- Causes are numbered when there are several. -/
def numbered : Nat → List String → String
  | _, [] => ""
  | n, cause :: causes =>
    "\n" ++ padLeft 5 (toString n) ++ ": " ++ hang 7 cause ++ numbered (n + 1) causes

def Failure.report (f : Failure) : String :=
  let causes :=
    match f.causes with
    | [] => ""
    | [cause] => "\n\nCaused by:\n    " ++ hang 4 cause
    | causes => "\n\nCaused by:" ++ numbered 0 causes
  "Error: " ++ f.message ++ causes ++ "\n"

end LeafPaths.Command
