import CanonicalEquation.Decimal.Rendering
import CanonicalEquation.Error
import CanonicalEquation.Term.Rendering
import CanonicalEquation.Token

/-!
# What multiplies a group

In front of a group stand factors, each with a `*` behind it, and before them
possibly one sign.  Behind the group stand factors, each with a `*` in front.
All of them together multiply each term of the group.
-/

namespace CanonicalEquation
namespace Group

/-- The number that a token is as a factor. -/
def factorOf (token : Token) : Except GroupError Rat :=
  match token with
  | .literal text =>
      match Decimal.ofText? text with
      | some value => .ok value
      | none => .error (.notNumber text)
  | _ => .error (.notNumber token.text)

/-- The product of factors, one if there are none. -/
def product (factors : List Rat) : Rat :=
  factors.foldr (· * ·) 1

/-- The tokens in front of a group, read from the group outwards. -/
structure Lead where
  /-- The factors, the nearest first. -/
  factors : List Rat
  /-- The sign in front of the factors. -/
  sign : Option Sign
  /-- The tokens that do not belong to the group, the nearest first. -/
  before : List Token

/-- Reads the lead of a group off the tokens in front of it, which are given
from the nearest outwards. -/
def Lead.ofTokens : List Token → Except GroupError Lead
  | .times :: factor :: rest => do
      let value ← factorOf factor
      let lead ← Lead.ofTokens rest
      return { lead with factors := value :: lead.factors }
  | [.times] => .error (.notNumber "*")
  | .sign sign :: rest => .ok ⟨[], some sign, rest⟩
  | rest => .ok ⟨[], none, rest⟩

/-- A term of a group, multiplied by the factors and the sign of the group. -/
def multiply (sign : Option Sign) (factor : Rat) (term : Term) : Term :=
  let scaled := term.scaledBy factor
  if sign = some .minus then scaled.opposite else scaled

/-- The tokens of a term behind another one. -/
def followingTokens (term : Term) : List Token :=
  [.sign term.sign, .literal term.unsignedText]

/-- The tokens of the first term of a group.  Its sign is left out if it is
`+` and no sign stood in front of the group. -/
def leadingTokens (signed : Bool) (term : Term) : List Token :=
  if signed || term.sign = .minus then
    followingTokens term
  else
    [.literal term.unsignedText]

/-- The tokens of terms that stand in place of a group. -/
def termTokens (signed : Bool) : List Term → List Token
  | [] => []
  | first :: rest => leadingTokens signed first ++ rest.flatMap followingTokens

end Group
end CanonicalEquation
