import Lookahead.Width

/-!
Digits and what they are worth.
-/
namespace Lookahead.Digits

def isDecimal (c : Char) : Bool := '0' ≤ c && c ≤ '9'

def hexValue? (c : Char) : Option Nat :=
  if '0' ≤ c ∧ c ≤ '9' then some (c.toNat - '0'.toNat)
  else if 'a' ≤ c ∧ c ≤ 'f' then some (c.toNat - 'a'.toNat + 10)
  else if 'A' ≤ c ∧ c ≤ 'F' then some (c.toNat - 'A'.toNat + 10)
  else none

/-- The value of a digit up to sixteen. -/
def valueOf (c : Char) : Nat := (hexValue? c).getD 0

/-- The value of a row of digits. -/
def value (base : Nat) (digits : List Char) : Nat :=
  digits.foldl (fun n c => n * base + valueOf c) 0

/-- The value of a row of digits as long as it is below the limit. Digits after the
point where it is not are passed over, so that the result is then some number
that is not below the limit either. -/
def boundedValue (base limit : Nat) (digits : List Char) : Nat :=
  digits.foldl (fun n c => if n < limit then n * base + valueOf c else n) 0

/-- A row of decimal digits as a 64-bit count. -/
def count? (digits : List Char) : Option Nat :=
  if digits.isEmpty || !digits.all isDecimal then none
  else
    let n := boundedValue 10 wordLimit digits
    if n < wordLimit then some n else none

end Lookahead.Digits
