import LeafPaths.Json.Input
import LeafPaths.Text.Decimal

/-!
Reading numbers. Whole numbers of 64 bits keep their value. Any other number is only known to be
fractional; that it can be a finite double is still checked.
-/

namespace LeafPaths.Json

inductive Numeral where
  /-- A whole number of either sign, within the range of 64 bits. -/
  | whole (n : Int)
  /-- Written with a fraction or an exponent, too large for 64 bits, or the negative zero. -/
  | fractional
  deriving DecidableEq, Repr

namespace Numeral

/-! ### The size of a number -/

/-- The number of at most 53 bits, not counting zeros at the end, that is nearest to `n`; halfway
between two, the one with the even last bit. -/
def toDouble (n : Nat) : Nat :=
  if n.log2 < 53 then n
  else
    let unit := 1 <<< (n.log2 - 52)
    let half := unit / 2
    let part := n % unit
    let up := half < part || (part = half && (n / unit) % 2 = 1)
    (n / unit + if up then 1 else 0) * unit

/-- The number `significand * 10 ^ exponent` can be a finite double, both factors being rounded
first. -/
def isFinite (significand : Nat) (exponent : Int) : Bool :=
  significand = 0 || exponent ≤ 0 ||
    (exponent ≤ 308 &&
      (toDouble (toDouble significand * toDouble (Nat.pow 10 exponent.toNat))).log2 < 1024)

/-- Appends digits to a number while it stays below 2^64; also tells how many were left out. -/
def absorb (n : Nat) : List Char → Nat × Nat
  | [] => (n, 0)
  | c :: cs =>
    let next := 10 * n + (c.toNat - '0'.toNat)
    if next < UInt64.size then absorb next cs else (n, cs.length + 1)

/-! ### The parts of a number -/

def isDigit : Piece → Bool
  | .char c => c.isDigit
  | .stray _ => false

def digits : Input → List Char × Input
  | .char c :: rest =>
    if c.isDigit then
      let found := digits rest
      (c :: found.1, found.2)
    else ([], .char c :: rest)
  | rest => ([], rest)

/-- What is wrong where a digit is wanted. A lax reader does not tell the end of the input from
any other piece. -/
def noDigit (strict : Bool) : Input → Fault
  | [] => if strict then .ended else .malformed
  | _ :: _ => .malformed

def someDigits (strict : Bool) (input : Input) : Result (List Char) :=
  let found := digits input
  if found.1.isEmpty then .error (noDigit strict input) else .ok found

/-- The whole part: a zero stands alone. -/
def wholePart (strict : Bool) (input : Input) : Result (List Char) :=
  match input with
  | .char '0' :: rest => if rest.head?.any isDigit then .error .malformed else .ok (['0'], rest)
  | _ => someDigits strict input

def fraction? (strict : Bool) (input : Input) : Result (Option (List Char)) :=
  match input with
  | .char '.' :: rest => (someDigits strict rest).map fun found => (some found.1, found.2)
  | _ => .ok (none, input)

def signedDigits (strict : Bool) (input : Input) : Result Int :=
  match input with
  | .char '-' :: rest =>
    (someDigits strict rest).map fun found => (-(Text.digitsValue found.1 : Int), found.2)
  | .char '+' :: rest =>
    (someDigits strict rest).map fun found => ((Text.digitsValue found.1 : Int), found.2)
  | _ => (someDigits strict input).map fun found => ((Text.digitsValue found.1 : Int), found.2)

def exponent? (strict : Bool) (input : Input) : Result (Option Int) :=
  match input with
  | .char 'e' :: rest | .char 'E' :: rest =>
    (signedDigits strict rest).map fun found => (some found.1, found.2)
  | _ => .ok (none, input)

/-- What the parts of a number amount to; `none` when it is no finite double. -/
def ofParts (negative : Bool) (units : List Char) (fraction : Option (List Char))
    (exponent : Option Int) : Option Numeral :=
  let value := Text.digitsValue units
  if fraction.isNone && exponent.isNone && !negative && value < UInt64.size then
    some (.whole value)
  else if fraction.isNone && exponent.isNone && negative && value ≠ 0 &&
      Int64.minValue.toInt ≤ -value then
    some (.whole (-value))
  else
    let head := absorb 0 units
    let places := fraction.getD []
    let full := absorb head.1 places
    let scale : Int := head.2 - (places.length - full.2 : Nat) + exponent.getD 0
    if isFinite full.1 scale then some .fractional else none

def unsigned (strict negative : Bool) (input : Input) : Except Fault (Numeral × Input) := do
  let (units, input) ← wholePart strict input
  let (fraction, input) ← fraction? strict input
  let (exponent, input) ← exponent? strict input
  match ofParts negative units fraction exponent with
  | some numeral => .ok (numeral, input)
  | none => if strict then .error .malformed else .ok (.fractional, input)

/-- A number, of which the first piece is a sign or a digit. -/
def read (strict : Bool) (input : Input) : Result Numeral :=
  match input with
  | .char '-' :: rest => unsigned strict true rest
  | _ => unsigned strict false input

end Numeral
end LeafPaths.Json
