/-!
Decimal digits and the 64-bit words they spell.
-/

namespace LeafPaths.Text

/-- The number that decimal digits spell, the most significant first. -/
def digitsValue (digits : List Char) : Nat := Nat.ofDigitChars 10 digits 0

theorem digitsValue_toDigits (n : Nat) : digitsValue (Nat.toDigits 10 n) = n :=
  Nat.ofDigitChars_toDigits (by decide) (by decide)

def dropPlus : List Char → List Char
  | '+' :: cs => cs
  | cs => cs

/-- Reads an optional `+` and at least one ASCII digit, of a value below 2^64. -/
def readWord? (cs : List Char) : Option UInt64 :=
  let digits := dropPlus cs
  if digits.isEmpty || !digits.all Char.isDigit then none
  else if h : digitsValue digits < UInt64.size then some (UInt64.ofNatLT (digitsValue digits) h)
  else none

end LeafPaths.Text
