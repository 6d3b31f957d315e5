import LeafPaths.Json.Input

/-!
Reading quoted text, one piece at a time. A strict reader wants the text itself; a lax one passes
over text that nobody wants, and does not look at strays and surrogates in it.
-/

namespace LeafPaths.Json.Quoted

inductive State where
  | plain
  /-- After a backslash. -/
  | escaped
  /-- Within the four digits of a unit of UTF-16, of which `left` are to come. The unit follows
  the leading surrogate `high`, if there is one. -/
  | unit (high : Option Nat) (left value : Nat)
  /-- After a leading surrogate, which the escape of a trailing one has to follow. -/
  | paired (high : Nat)
  /-- After the backslash of that escape. -/
  | pairedEscape (high : Nat)
  deriving DecidableEq, Repr

def unescape? : Char → Option Char
  | '"' => some '"'
  | '\\' => some '\\'
  | '/' => some '/'
  | 'b' => some '\x08'
  | 'f' => some '\x0c'
  | 'n' => some '\n'
  | 'r' => some '\r'
  | 't' => some '\t'
  | _ => none

def hexDigit? (c : Char) : Option Nat :=
  if '0' ≤ c ∧ c ≤ '9' then some (c.toNat - '0'.toNat)
  else if 'a' ≤ c ∧ c ≤ 'f' then some (c.toNat - 'a'.toNat + 10)
  else if 'A' ≤ c ∧ c ≤ 'F' then some (c.toNat - 'A'.toNat + 10)
  else none

def isLeading (u : Nat) : Bool := 0xD800 ≤ u && u ≤ 0xDBFF

def isTrailing (u : Nat) : Bool := 0xDC00 ≤ u && u ≤ 0xDFFF

def combine (high low : Nat) : Char :=
  Char.ofNat (0x10000 + (high - 0xD800) * 0x400 + (low - 0xDC00))

/-- The state after a unit and the character that it completes. -/
def finishUnit (strict : Bool) (high : Option Nat) (u : Nat) :
    Except Fault (State × List Char) :=
  if !strict then .ok (.plain, [])
  else
    match high with
    | none =>
      if isTrailing u then .error .malformed
      else if isLeading u then .ok (.paired u, [])
      else .ok (.plain, [Char.ofNat u])
    | some high =>
      if isTrailing u then .ok (.plain, [combine high u]) else .error .malformed

/-- A unit can begin only where four more bytes are left. -/
def beginUnit (high : Option Nat) (rest : Input) : Except Fault (State × List Char) :=
  if rest.hasBytes 4 then .ok (.unit high 4 0, []) else .error .ended

/-- The state after a character, and the characters that it completes. -/
def step (strict : Bool) (state : State) (c : Char) (rest : Input) :
    Except Fault (State × List Char) :=
  match state with
  | .plain =>
    if c = '\\' then .ok (.escaped, [])
    else if c.toNat < 0x20 then .error .malformed
    else .ok (.plain, [c])
  | .escaped =>
    if c = 'u' then beginUnit none rest
    else
      match unescape? c with
      | some d => .ok (.plain, [d])
      | none => .error .malformed
  | .unit high left value =>
    match hexDigit? c with
    | some d =>
      if left ≤ 1 then finishUnit strict high (16 * value + d)
      else .ok (.unit high (left - 1) (16 * value + d), [])
    | none => .error .malformed
  | .paired high => if c = '\\' then .ok (.pairedEscape high, []) else .error .malformed
  | .pairedEscape high => if c = 'u' then beginUnit (some high) rest else .error .malformed

/-- Reads on to the closing quote. `clean` tells that no stray byte was met; only the end of the
text brings one to light. -/
def body (strict : Bool) : State → (clean : Bool) → Input → Result (List Char)
  | _, _, [] => .error .ended
  | state, _, .stray _ :: rest =>
    if state = .plain then body strict .plain false rest else .error .malformed
  | state, clean, .char c :: rest =>
    if state = .plain ∧ c = '"' then
      if clean || !strict then .ok ([], rest) else .error .malformed
    else
      match step strict state c rest with
      | .error fault => .error fault
      | .ok (next, chars) =>
        match body strict next clean rest with
        | .error fault => .error fault
        | .ok (more, rest) => .ok (chars ++ more, rest)

def read (input : Input) : Result String :=
  (body true .plain true input).map fun found => (String.ofList found.1, found.2)

/-- Passes over the text after an opening quote. -/
def skip (input : Input) : Result Unit :=
  (body false .plain true input).map fun found => ((), found.2)

end LeafPaths.Json.Quoted
