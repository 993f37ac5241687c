import CanonicalEquation.Machine
import CanonicalEquation.Term.Reading
import CanonicalEquation.Token

/-!
# The terms of a side

A side of an equation holds terms with at least one sign between any two of
them.  The signs in front of a term multiply, with each other and with a sign
attached to the term.  Parentheses of groups that stayed as they were written
have no meaning any more and are passed over.
-/

namespace CanonicalEquation
namespace Side

/-- What has been read in front of a token. -/
inductive Reading where
  /-- Nothing yet. -/
  | start
  /-- A term, and no sign behind it. -/
  | afterTerm
  /-- Signs with the given product, and no term behind them. -/
  | signed (product : Sign)

/-- The sign that the signs read so far give to the next term. -/
def Reading.sign : Reading → Sign
  | signed product => product
  | _ => .plus

/-- How far a side has been read. -/
structure Progress where
  /-- The position of the next token. -/
  position : Nat
  /-- What has been read in front of it. -/
  reading : Reading

/-- Whether a literal is a parenthesis that stands alone. -/
def isParenthesis (literal : String) : Bool :=
  literal = "(" || literal = ")"

/-- A literal without one opening parenthesis at its front and one closing
parenthesis at its end. -/
def dropParentheses (literal : List Char) : List Char :=
  let opened := if literal.head? = some '(' then literal.tail else literal
  if opened.getLast? = some ')' then opened.dropLast else opened

/-- The term that a literal is. -/
def termOf (literal : String) : Except Error Term :=
  match Term.ofChars? (dropParentheses literal.toList) with
  | some term => .ok term
  | none => .error (.notTerm literal)

/-- Reads one token: the term that it is, if it is one, and what has been read
with it. -/
def readToken
    (position : Nat)
    (reading : Reading) : Token → Except Error (List Term × Reading)
  | .sign sign => .ok ([], .signed (reading.sign * sign))
  | .literal text =>
      if isParenthesis text then
        .ok ([], reading)
      else
        match reading with
        | .afterTerm => .error (.misplacedToken text position)
        | _ => do
            let term ← termOf text
            return ([{ term with sign := reading.sign * term.sign }], .afterTerm)
  | token => .error (.misplacedToken token.text position)

/-- The reading of a side as a machine, which writes the terms. -/
def reader : Machine Progress Token Term Error := fun progress token => do
  let (terms, reading) ← readToken progress.position progress.reading token
  return (terms, ⟨progress.position + 1, reading⟩)

/-- The error of a side that ends behind a sign, which names its last token. -/
def dangling (side : List Token) : Error :=
  .misplacedToken ((side.getLast?.map Token.text).getD "") (side.length - 1)

/-- Reads the terms of a side. -/
def terms (side : List Token) : Except Error (List Term) := do
  let (terms, final) ← reader.run ⟨0, .start⟩ side
  match final.reading with
  | .signed _ => throw (dangling side)
  | _ => return terms

end Side
end CanonicalEquation
