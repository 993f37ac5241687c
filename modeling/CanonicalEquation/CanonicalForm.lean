import CanonicalEquation.Equation.Side
import CanonicalEquation.Equation.Sides
import CanonicalEquation.Group.Opening
import CanonicalEquation.Term.Order
import CanonicalEquation.Term.Rendering

/-!
# The canonical form of an equation

Groups are opened, everything is moved to the left-hand side, like terms are
summed, and the sums that are not zero are written in order.

A tally holds one sum for each key, in the order in which the keys first
appear.  Keys whose sum is zero give no term.  A summed equation holds the terms
of the tally of its left-hand side, and keeps what follows that side as it is.

The terms of the left-hand side and the tokens behind it are written with
single spaces between them.  A side without terms is written `0`.
-/

namespace CanonicalEquation

/-! ## Summing like terms -/

/-- The sums of like terms, one entry for each key. -/
structure Tally where
  /-- The keys and their sums, in the order of first appearance. -/
  entries : List (Key × Rat)

namespace Tally

/-- Adds a value to the entry of a key, which is put at the end if it is
new. -/
def addEntry (key : Key) (value : Rat) : List (Key × Rat) → List (Key × Rat)
  | [] => [(key, value)]
  | entry :: rest =>
      if entry.1 = key then
        (key, entry.2 + value) :: rest
      else
        entry :: addEntry key value rest

/-- Adds a term to the sum of its like terms. -/
def add (tally : Tally) (term : Term) : Tally :=
  ⟨addEntry term.key term.value tally.entries⟩

/-- The sums of a list of terms. -/
def ofTerms (terms : List Term) : Tally :=
  terms.foldl add ⟨[]⟩

/-- The terms that have the sums of a tally as their values. -/
def terms (tally : Tally) : List Term :=
  tally.entries.filterMap fun entry => Term.ofValue? entry.1 entry.2

end Tally

/-- An equation whose left-hand side has been summed. -/
structure SummedEquation where
  /-- The terms of the left-hand side, no two of them alike. -/
  terms : List Term
  /-- The tokens from the equality sign on. -/
  tail : List Token

/-- Sums the like terms in front of the first equality sign. -/
def SummedEquation.ofTokens (tokens : List Token) : Except Error SummedEquation := do
  if tokens.contains .equals then
    let terms ← Side.terms (tokens.takeWhile (· != .equals))
    return ⟨(Tally.ofTerms terms).terms, tokens.dropWhile (· != .equals)⟩
  else
    throw .incomplete

/-! ## Writing equations -/

namespace Equation

/-- The texts of the terms of a side. -/
def sideTexts : List Term → List String
  | [] => ["0"]
  | first :: rest => first.leadingText :: rest.map Term.followingText

/-- The text of an equation with the terms of its left-hand side and the
tokens from the equality sign on. -/
def render (terms : List Term) (tail : List Token) : String :=
  " ".intercalate
    (sideTexts terms ++ if tail.isEmpty then [] else [Token.spacedText tail])

end Equation

/-! ## The canonical form -/

/-- The canonical form of an equation. -/
def canonicalForm (order : PowerOrder) (text : String) : Except Error String := do
  let tokens ← (Group.openAll (Token.scan text)).mapError Error.group
  let equation ← Equation.ofTokens tokens
  let summed ← SummedEquation.ofTokens equation.zeroForm
  return Equation.render (order.sort summed.terms) summed.tail

end CanonicalEquation
