import CanonicalEquation.Decimal.Rendering
import CanonicalEquation.Term.Basic

/-!
# Writing terms

The first term of a side is written with an attached sign, and only if that is
`-`.  Every later term has its sign in front, divided from it by a space.  A
coefficient of one is written only in a constant.
-/

namespace CanonicalEquation
namespace Term

/-- The text of a coefficient as it stands in front of the letters. -/
def coefficientText (term : Term) : String :=
  if term.isConstant then
    (term.coefficient.map Decimal.render).getD "1"
  else
    match term.coefficient with
    | none => ""
    | some magnitude => if magnitude = 1 then "" else Decimal.render magnitude

/-- A term without its sign. -/
def unsignedText (term : Term) : String :=
  term.coefficientText ++ term.key.letters ++ term.key.power

/-- A term with its sign attached. -/
def text (term : Term) : String :=
  term.sign.text ++ term.unsignedText

/-- A term as the first of its side. -/
def leadingText (term : Term) : String :=
  match term.sign with
  | .plus => term.unsignedText
  | .minus => "-" ++ term.unsignedText

/-- A term behind another one. -/
def followingText (term : Term) : String :=
  term.sign.text ++ " " ++ term.unsignedText

end Term
end CanonicalEquation
