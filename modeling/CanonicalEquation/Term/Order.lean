import CanonicalEquation.Term.Basic

/-!
# The order of terms

Terms are ordered by descending power, then by descending length of their
letters, then by their letters.  Powers are compared as text or as numbers;
letters by their UTF-8 length and then by code points.
-/

namespace CanonicalEquation

/-- How the powers of two terms are compared. -/
inductive PowerOrder where
  /-- As texts, by code points. -/
  | textual
  /-- By the numbers that they write. -/
  | numerical
deriving DecidableEq

namespace Key

/-- The number that an unsigned integer writes.  It may have one `+` in front,
and underscores behind its first digit. -/
def naturalOf? (text : List Char) : Option Nat :=
  let digits := if text.head? = some '+' then text.tail else text
  if digits.isEmpty || digits.head? = some '_' then
    none
  else if digits.all fun c => c.isDigit || c == '_' then
    some (Nat.ofDigitChars 10 (digits.filter Char.isDigit) 0)
  else
    none

/-- The exponent that a power writes behind its caret, if it writes one. -/
def exponent? (key : Key) : Option Nat :=
  match key.power.toList with
  | '^' :: digits => naturalOf? digits
  | _ => none

end Key

namespace PowerOrder

/-- Compares the powers of two keys, the lower one first.  A missing exponent
is below every exponent. -/
def orderingOfPowers (order : PowerOrder) (first second : Key) : Ordering :=
  match order with
  | textual => compare first.power second.power
  | numerical => compare first.exponent? second.exponent?

/-- Compares two keys as they are ordered in an equation. -/
def orderingOfKeys (order : PowerOrder) (first second : Key) : Ordering :=
  (order.orderingOfPowers second first).then
    ((compare second.letters.utf8ByteSize first.letters.utf8ByteSize).then
      (compare first.letters second.letters))

/-- Compares two terms as they are ordered in an equation. -/
def orderingOfTerms (order : PowerOrder) (first second : Term) : Ordering :=
  order.orderingOfKeys first.key second.key

/-- Puts a term into ordered terms, in front of those that compare equal to
it. -/
def insert (order : PowerOrder) (term : Term) : List Term → List Term
  | [] => [term]
  | first :: rest =>
      if (order.orderingOfTerms term first).isLE then
        term :: first :: rest
      else
        first :: insert order term rest

/-- Sorts terms.  Terms that compare equal keep their order. -/
def sort (order : PowerOrder) (terms : List Term) : List Term :=
  terms.foldr order.insert []

end PowerOrder
end CanonicalEquation
