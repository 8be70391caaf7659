import Lookahead.Text.Digits

/-!
Floating-point numbers of 64 bits, as far as a reader of numerals needs them: it
has to know which numerals are too large. A numeral is too large if it rounds to
infinity, and there are two ways to round it: all at once, or as the product of
its digits and of a power of ten that have each been rounded before.
-/
namespace Lookahead.Binary64

/-- The number of bits in a significand. -/
def precision : Nat := 53

/-- The least number that rounds to infinity. It is half a unit in the last place
above the greatest finite number. -/
def infinityLimit : Nat := Nat.pow 2 1024 - Nat.pow 2 970

/-- The number of decimal digits of the limit. -/
def limitDigits : Nat := 309

/-- The nearest whole number to a quotient; a tie goes to the even one. -/
def roundDiv (n d : Nat) : Nat :=
  let quotient := n / d
  let twice := 2 * (n % d)
  if twice < d then quotient
  else if d < twice then quotient + 1
  else quotient + quotient % 2

/-- The nearest whole number whose significand fits; a tie goes to the even one. -/
def nearest (n : Nat) : Nat :=
  let unit := Nat.pow 2 (n.log2 + 1 - precision)
  roundDiv n unit * unit

/-- Whether a product is too large whose factors have been rounded. -/
def productOverflows (a b : Nat) : Bool := infinityLimit ≤ nearest a * nearest b

/-- Whether `digits · 10 ^ exponent` is too large. The limit is a whole number, so
what comes after the point has no say. -/
def overflows (digits : List Char) (exponent : Int) : Bool :=
  let digits := digits.dropWhile (· == '0')
  let magnitude := digits.length + exponent
  if digits.isEmpty then false
  else if magnitude < limitDigits then false
  else if limitDigits < magnitude then true
  else
    infinityLimit ≤
      Digits.value 10 (digits.take limitDigits) * Nat.pow 10 (limitDigits - digits.length)

end Lookahead.Binary64
