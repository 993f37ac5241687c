import CanonicalEquation.Sign

/-!
# Terms

A term has a sign, the magnitude of its coefficient, and a key.  Like terms
are terms with the same key.  A coefficient that was not written is kept apart
from a written `1`, although both count as one.
-/

namespace CanonicalEquation

/-- What like terms share: the letters of a term and the text of its power. -/
structure Key where
  /-- The letters, none for a constant. -/
  letters : String
  /-- The power with its caret, or nothing. -/
  power : String
deriving DecidableEq

/-- A signed monomial. -/
structure Term where
  /-- The sign in front. -/
  sign : Sign
  /-- The magnitude of the coefficient, if one is written. -/
  coefficient : Option Rat
  /-- The letters and their power. -/
  key : Key
deriving DecidableEq

namespace Key

/-- The key of the constants. -/
def constant : Key := ⟨"", ""⟩

end Key

namespace Term

/-- A constant term with a sign and a magnitude. -/
def constant (sign : Sign) (magnitude : Rat) : Term :=
  ⟨sign, some magnitude, Key.constant⟩

/-- Whether a term has no letters. -/
def isConstant (term : Term) : Bool :=
  term.key.letters.isEmpty

/-- The coefficient of a term, one if none is written. -/
def magnitude (term : Term) : Rat :=
  term.coefficient.getD 1

/-- The signed coefficient of a term: what it adds to the sum of its like
terms. -/
def value (term : Term) : Rat :=
  term.sign.apply term.magnitude

/-- The term with the opposite sign. -/
def opposite (term : Term) : Term :=
  { term with sign := -term.sign }

/-- The term times a number.  Its coefficient is always written. -/
def scaledBy (factor : Rat) (term : Term) : Term :=
  let product := term.magnitude * factor
  { term with
    sign := if product < 0 then -term.sign else term.sign
    coefficient := some product.abs }

/-- The term with a key and a value.  There is none for the value zero, and a
coefficient of one is not written. -/
def ofValue? (key : Key) (value : Rat) : Option Term :=
  if value = 0 then
    none
  else
    some ⟨Sign.ofRat value, if value.abs = 1 then none else some value.abs, key⟩

end Term
end CanonicalEquation
