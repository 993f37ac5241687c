import CanonicalEquation.Decimal.Numeral

/-!
# Decimal text

Reads and writes numbers in decimal.  A reduced fraction has a finite decimal
expansion exactly when no prime other than 2 and 5 divides its denominator, and
then the larger of the two exponents is the number of places.

A number with a finite decimal expansion is written exactly; any other is
rounded to the places that `Decimal.keptPlaces` keeps of it, a half away from
zero.  No zero is written at the end of a fraction, and no sign in front of `0`.
-/

namespace CanonicalEquation
namespace Decimal

/-! ## Decimal places -/

/-- Divides a number by a base as often as the base divides it: how often that
was, and what is left.  A base below 2, and the number 0, are left alone. -/
def divideOut (base number : Nat) : Nat × Nat :=
  if divisible : 1 < base ∧ 0 < number ∧ number % base = 0 then
    let stripped := divideOut base (number / base)
    (stripped.1 + 1, stripped.2)
  else
    (0, number)
termination_by number
decreasing_by exact Nat.div_lt_self divisible.2.1 divisible.1

/-- How many more places than its powers of 2 and 5 ask for are kept of a
fraction without a finite decimal expansion. -/
def extraPlaces : Nat := 64

/-- The number of places kept of a reduced fraction with a denominator. -/
def keptPlaces (denominator : Nat) : Nat :=
  let twos := divideOut 2 denominator
  let fives := divideOut 5 twos.2
  if fives.2 = 1 then
    max twos.1 fives.1
  else
    max twos.1 fives.1 + extraPlaces

/-! ## Reading and writing -/

/-- The magnitude of a number in units of its last kept place, rounded to the
nearest integer, a half upwards. -/
def scaledMagnitude (value : Rat) : Nat :=
  let numerator := value.num.natAbs * Nat.pow 10 (keptPlaces value.den)
  (2 * numerator + value.den) / (2 * value.den)

/-- A list of digits without the zeros at its end. -/
def trimZeros (digits : List Char) : List Char :=
  (digits.reverse.dropWhile (· == '0')).reverse

/-- The numeral that writes the magnitude of a number.  The digits are filled
up with zeros at the front so that one stands before the point.  The width to
which they are filled up has no bound. -/
def magnitudeNumeral (value : Rat) : Numeral :=
  let count := keptPlaces value.den
  let digits := (Nat.toDigits 10 (scaledMagnitude value)).leftpad (count + 1) '0'
  ⟨digits.take (digits.length - count), trimZeros (digits.drop (digits.length - count))⟩

/-- The numeral `0`. -/
def zeroNumeral : Numeral := ⟨['0'], []⟩

/-- The characters that write a number. -/
def chars (value : Rat) : List Char :=
  let numeral := magnitudeNumeral value
  if value < 0 ∧ numeral ≠ zeroNumeral then
    '-' :: numeral.chars
  else
    numeral.chars

/-- The text that writes a number. -/
def render (value : Rat) : String :=
  String.ofList (chars value)

/-- The number that an unsigned numeral writes, if the text is one. -/
def ofText? (text : String) : Option Rat :=
  (Numeral.ofChars? text.toList).map Numeral.value

end Decimal
end CanonicalEquation
