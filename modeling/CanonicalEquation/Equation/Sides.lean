import CanonicalEquation.Error
import CanonicalEquation.Token

/-!
# The two sides of an equation

An equation has exactly one equality sign, and something behind it.  Its
right-hand side is moved to the left by turning round each sign that stands
alone, with a `-` in front unless the side begins with such a sign.
-/

namespace CanonicalEquation

/-- An equation, cut at its equality sign. -/
structure Equation where
  /-- The tokens in front of the equality sign. -/
  left : List Token
  /-- The tokens behind the equality sign. -/
  right : List Token

namespace Equation

/-- Cuts tokens at their only equality sign. -/
def ofTokens (tokens : List Token) : Except Error Equation :=
  match tokens.count .equals with
  | 0 => .error .incomplete
  | 1 =>
      let right := (tokens.dropWhile (· != .equals)).tail
      if right.isEmpty then
        .error .incomplete
      else
        .ok ⟨tokens.takeWhile (· != .equals), right⟩
  | count => .error (.tooManyEqualities count)

/-- Turns round a sign that stands alone.  Other tokens stay. -/
def turnSign : Token → Token
  | .sign sign => .sign (-sign)
  | token => token

/-- The tokens that subtract a side. -/
def subtract (side : List Token) : List Token :=
  let turned := side.map turnSign
  if side.head?.any Token.isSign then turned else .sign .minus :: turned

/-- What stands behind the left-hand side when everything has been moved to
it. -/
def zeroTail : List Token := [.equals, .literal "0"]

/-- The tokens of the equation with everything moved to its left-hand side. -/
def zeroForm (equation : Equation) : List Token :=
  equation.left ++ subtract equation.right ++ zeroTail

end Equation
end CanonicalEquation
