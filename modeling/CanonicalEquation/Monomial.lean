import CanonicalEquation.Decimal.Numeral

/-!
# Monomials

An unsigned monomial as it is written, such as `3.5xy^2`, `x` or `14`: a
numeral and letters, one of the two possibly missing, and behind letters
possibly a caret and digits.  Letters are the lowercase ASCII letters.
-/

namespace CanonicalEquation

/-- An unsigned monomial as it is written.  An empty exponent is written
without a caret. -/
structure Monomial where
  /-- The numeral in front, if one is written. -/
  numeral : Option Numeral
  /-- The letters, none for a constant. -/
  letters : List Char
  /-- The digits behind the caret. -/
  exponent : List Char
deriving DecidableEq

namespace Monomial

/-- The characters of an exponent, with its caret. -/
def powerChars (exponent : List Char) : List Char :=
  if exponent.isEmpty then [] else '^' :: exponent

/-- The characters of a monomial. -/
def chars (monomial : Monomial) : List Char :=
  (monomial.numeral.map Numeral.chars).getD [] ++ monomial.letters ++
    powerChars monomial.exponent

/-- The exponent that a text is with its caret, if it is one.  The empty text
is the empty exponent. -/
def exponentOf? : List Char → Option (List Char)
  | [] => some []
  | '^' :: digits =>
      if digits.isEmpty then
        none
      else if digits.all Char.isDigit then
        some digits
      else
        none
  | _ => none

/-- The letters and the exponent of a text without a numeral, behind a numeral
that was read before it.  Without letters a numeral has to stand alone. -/
def withNumeral?
    (numeral : Option Numeral)
    (text : List Char) : Option Monomial :=
  let letters := text.takeWhile Char.isLower
  let rest := text.dropWhile Char.isLower
  if letters.isEmpty then
    if numeral.isSome && rest.isEmpty then
      some ⟨numeral, [], []⟩
    else
      none
  else
    (exponentOf? rest).map fun exponent => ⟨numeral, letters, exponent⟩

/-- The monomial that a text is, if it is one. -/
def ofChars? (text : List Char) : Option Monomial :=
  match Numeral.scan? text with
  | some (numeral, rest) => withNumeral? (some numeral) rest
  | none => withNumeral? none text

end Monomial
end CanonicalEquation
