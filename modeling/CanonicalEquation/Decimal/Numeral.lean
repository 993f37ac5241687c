/-!
# Numerals

An unsigned decimal numeral as it is written: digits, then possibly a point
and more digits.  Digits are the ten ASCII digits.  A point without a digit
behind it does not belong to the numeral, so of `3.` only `3` is read.
-/

namespace CanonicalEquation

/-- A numeral as it is written.  An empty fraction is written without a
point. -/
structure Numeral where
  /-- The digits in front of the point. -/
  whole : List Char
  /-- The digits behind the point. -/
  fraction : List Char
deriving DecidableEq

namespace Numeral

/-- The characters of a numeral. -/
def chars (numeral : Numeral) : List Char :=
  if numeral.fraction.isEmpty then
    numeral.whole
  else
    numeral.whole ++ '.' :: numeral.fraction

/-- The number that a numeral writes: all its digits as one integer, over the
power of ten that the length of the fraction gives. -/
def value (numeral : Numeral) : Rat :=
  mkRat (Nat.ofDigitChars 10 (numeral.whole ++ numeral.fraction) 0)
    (Nat.pow 10 numeral.fraction.length)

/-- The digits behind a leading point. -/
def fractionOf : List Char → List Char
  | '.' :: rest => rest.takeWhile Char.isDigit
  | _ => []

/-- The longest numeral at the front of a text, and what follows it. -/
def scan? (text : List Char) : Option (Numeral × List Char) :=
  let whole := text.takeWhile Char.isDigit
  let rest := text.dropWhile Char.isDigit
  let fraction := fractionOf rest
  if whole.isEmpty then
    none
  else if fraction.isEmpty then
    some (⟨whole, []⟩, rest)
  else
    some (⟨whole, fraction⟩, rest.drop (fraction.length + 1))

/-- The numeral that a text is, if it is one. -/
def ofChars? (text : List Char) : Option Numeral :=
  match scan? text with
  | some (numeral, []) => some numeral
  | _ => none

end Numeral
end CanonicalEquation
