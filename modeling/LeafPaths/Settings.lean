import LeafPaths.Text.Blank
import LeafPaths.Text.Decimal

/-!
The limits of an extraction, and how they are read from named variables.
-/

namespace LeafPaths

structure Settings where
  /-- The longest path, in steps. -/
  maxLength : UInt64 := 8
  /-- The widest turn of a path. -/
  maxWidth : UInt64 := 2
  /-- The most contexts that one snippet yields. -/
  maxContexts : UInt64 := 200
  deriving DecidableEq, Repr, Inhabited

inductive Settings.Error where
  | zeroLength
  | zeroContexts
  /-- The text of a variable is no number. -/
  | malformed (variableName text : String)
  deriving DecidableEq, Repr

namespace Settings

def Error.message : Error → String
  | .zeroLength => "invalid configuration: `max_path_length` must be greater than 0"
  | .zeroContexts => "invalid configuration: `max_contexts` must be greater than 0"
  | .malformed variableName text =>
    "failed to parse env variable: " ++ variableName ++ " = '" ++ text ++ "'"

/-- Limits that admit no context at all are refused; a width of 0 still admits some. -/
def validate (s : Settings) : Except Error Settings :=
  if s.maxLength = 0 then .error .zeroLength
  else if s.maxContexts = 0 then .error .zeroContexts
  else .ok s

/-- The number in a variable, or `default` when it is unset or blank. -/
def readVariable (lookup : String → Option String) (variableName : String) (default : UInt64) :
    Except Error UInt64 :=
  match lookup variableName with
  | none => .ok default
  | some text =>
    let trimmed := Text.trim text
    if trimmed.isEmpty then .ok default
    else
      match Text.readWord? trimmed.toList with
      | some value => .ok value
      | none => .error (.malformed variableName text)

/-- The settings that the variables give, checked. -/
def ofLookup (lookup : String → Option String) : Except Error Settings := do
  let defaults : Settings := {}
  let maxLength ← readVariable lookup "PATH_CONTEXT_MAX_LENGTH" defaults.maxLength
  let maxWidth ← readVariable lookup "PATH_CONTEXT_MAX_WIDTH" defaults.maxWidth
  let maxContexts ← readVariable lookup "PATH_CONTEXT_MAX_CONTEXTS" defaults.maxContexts
  validate { maxLength, maxWidth, maxContexts }

theorem validate_eq_ok_iff {s t : Settings} :
    s.validate = .ok t ↔ t = s ∧ s.maxLength ≠ 0 ∧ s.maxContexts ≠ 0 := by
  unfold validate
  by_cases length : s.maxLength = 0
  · simp [length]
  · by_cases contexts : s.maxContexts = 0
    · simp [length, contexts]
    · simp [length, contexts, eq_comm]

end Settings
end LeafPaths
