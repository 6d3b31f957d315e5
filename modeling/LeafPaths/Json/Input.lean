/-!
What a reader of JSON is given: characters, and bytes that belong to none. A stray byte is a fault
only where a reader looks at it, so it must not stop the reader before.
-/

namespace LeafPaths.Json

inductive Piece where
  | char (c : Char)
  | stray (byte : UInt8)
  deriving DecidableEq, Repr, Inhabited

abbrev Input := List Piece

/-- Why a text is refused. -/
inductive Fault where
  /-- It is no JSON. -/
  | malformed
  /-- It ends too early. -/
  | ended
  /-- It is JSON, of the wrong shape. -/
  | mismatched
  deriving DecidableEq, Repr

abbrev Result (α : Type) := Except Fault (α × Input)

namespace Input

def ofString (s : String) : Input := s.toList.map .char

/-- The characters of the bytes from `i` on, and those bytes that begin no character. -/
def scan (bytes : ByteArray) (i : Nat) : Input :=
  if i < bytes.size then
    match bytes.utf8DecodeChar? i with
    | some c => .char c :: scan bytes (i + c.utf8Size)
    | none => .stray (bytes.get! i) :: scan bytes (i + 1)
  else []
termination_by bytes.size - i
decreasing_by
  · have := c.utf8Size_pos
    omega
  · omega

def ofBytes (bytes : ByteArray) : Input :=
  match String.fromUTF8? bytes with
  | some s => ofString s
  | none => scan bytes 0

/-! ### Blanks and words -/

def isBlank (p : Piece) : Bool :=
  p = .char ' ' || p = .char '\n' || p = .char '\t' || p = .char '\r'

def skipBlanks (input : Input) : Input := input.dropWhile isBlank

/-- Reads the given characters. -/
def expect : List Char → Input → Except Fault Input
  | [], input => .ok input
  | _ :: _, [] => .error .ended
  | c :: cs, p :: input => if p = .char c then expect cs input else .error .malformed

/-- At least so many bytes are left. -/
def hasBytes : Nat → Input → Bool
  | 0, _ => true
  | _, [] => false
  | n + 1, .char c :: input => hasBytes (n + 1 - c.utf8Size) input
  | n + 1, .stray _ :: input => hasBytes n input

end Input
end LeafPaths.Json
