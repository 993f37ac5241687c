import CanonicalEquation.Proofs.Group.Replacement

/-!
# Written equations

The syntax of equations as they are meant to be written: sides of items with
one sign between them, where an item is a monomial or a group in parentheses
with factors around it.  Each part has its tokens and what it is worth.
-/

namespace CanonicalEquation
namespace Written

/-- A factor of a group. -/
abbrev Factor : Type := {numeral : Numeral // numeral.WellFormed}

/-- A monomial without a sign. -/
abbrev Unsigned : Type := {monomial : Monomial // monomial.WellFormed}

/-- A monomial, possibly with a sign attached to it. -/
structure Literal where
  /-- The attached sign. -/
  sign : Option Sign
  /-- The monomial. -/
  monomial : Unsigned

/-- What a group encloses. -/
structure Sum where
  /-- The first term. -/
  first : Literal
  /-- The other terms, each behind a sign that stands alone. -/
  rest : List (Sign × Unsigned)

/-- A group with the factors around it. -/
structure Bracket where
  /-- The factors in front of the group, each with a `*` behind. -/
  before : List Factor
  /-- What the group encloses. -/
  sum : Sum
  /-- The factors behind the group, each with a `*` in front. -/
  after : List Factor

/-- What stands between two signs of a side. -/
inductive Item where
  /-- A monomial. -/
  | literal (written : Literal)
  /-- A group. -/
  | bracket (written : Bracket)

/-- A side of an equation. -/
structure Side where
  /-- The sign in front of the first item, if there is one. -/
  sign : Option Sign
  /-- The first item. -/
  first : Item
  /-- The other items, each behind a sign. -/
  rest : List (Sign × Item)

/-- An equation.  Its left-hand side may be empty. -/
structure Equation where
  /-- What stands in front of the equality sign. -/
  left : Option Side
  /-- What stands behind the equality sign. -/
  right : Side

/-! ## Tokens -/

namespace Literal

/-- The characters of a literal. -/
def chars (literal : Literal) : List Char :=
  Term.signChars literal.sign ++ literal.monomial.val.chars

/-- The token of a literal. -/
def token (literal : Literal) : Token :=
  .literal (String.ofList literal.chars)

/-- The term that a literal is. -/
def term (literal : Literal) : Term :=
  literal.monomial.val.toTerm (literal.sign.getD .plus)

/-- The literals are all that is read as a term, among texts without blanks. -/
theorem ofChars?_eq_some_iff
    {text : List Char}
    (solid : Text.Solid Text.isTermBlank text)
    {term : Term} :
    Term.ofChars? text = some term ↔
      ∃ literal : Literal, literal.chars = text ∧ literal.term = term := by
  rw [Term.ofChars?_eq_some_iff solid]
  constructor
  · rintro ⟨sign, monomial, wellFormed, rfl, rfl⟩
    exact ⟨⟨sign, monomial, wellFormed⟩, rfl, rfl⟩
  · rintro ⟨⟨sign, monomial⟩, rfl, rfl⟩
    exact ⟨sign, monomial.val, monomial.property, rfl, rfl⟩

end Literal

namespace Sum

/-- The tokens from a word on to the end of a group.  The closing parenthesis
is attached to the last word. -/
def closingTokens (word : List Char) : List (Sign × Unsigned) → List Token
  | [] => [.literal (String.ofList (word ++ [')']))]
  | (sign, monomial) :: rest =>
      .literal (String.ofList word) :: .sign sign :: closingTokens monomial.val.chars rest

/-- The tokens of a group.  The opening parenthesis is attached to the first
word. -/
def tokens (sum : Sum) : List Token :=
  closingTokens ('(' :: sum.first.chars) sum.rest

/-- The terms of a group behind its first one. -/
def restTerms (sum : Sum) : List Term :=
  sum.rest.map fun (sign, monomial) => monomial.val.toTerm sign

/-- The terms of a group. -/
def terms (sum : Sum) : List Term :=
  sum.first.term :: sum.restTerms

end Sum

/-- The numerals of factors. -/
def numeralsOf (factors : List Factor) : List Numeral :=
  factors.map Subtype.val

/-- The product of factors. -/
def productOf (factors : List Factor) : Rat :=
  (factors.map fun factor => factor.val.value).prod

/-- The factors are all that is read as a decimal. -/
theorem decimal_eq_some_iff
    {text : String}
    {value : Rat} :
    Decimal.ofText? text = some value ↔
      ∃ factor : Factor, String.ofList factor.val.chars = text ∧ factor.val.value = value := by
  rw [Decimal.ofText?_eq_some_iff]
  constructor
  · rintro ⟨numeral, wellFormed, rfl, rfl⟩
    exact ⟨⟨numeral, wellFormed⟩, rfl, rfl⟩
  · rintro ⟨⟨numeral, wellFormed⟩, rfl, rfl⟩
    exact ⟨numeral, wellFormed, rfl, rfl⟩

namespace Bracket

/-- The tokens of a group with its factors. -/
def tokens (bracket : Bracket) : List Token :=
  Group.leadTokens (numeralsOf bracket.before) ++
    (bracket.sum.tokens ++ Group.factorTokens (numeralsOf bracket.after))

/-- What a group with its factors is worth. -/
noncomputable def combination (bracket : Bracket) : Combination :=
  (productOf bracket.before * productOf bracket.after) • Combination.ofTerms bracket.sum.terms

end Bracket

namespace Item

/-- The tokens of an item. -/
def tokens : Item → List Token
  | literal written => [written.token]
  | bracket written => written.tokens

/-- What an item is worth. -/
noncomputable def combination : Item → Combination
  | literal written => written.term.combination
  | bracket written => written.combination

end Item

/-- The tokens of an item behind a sign. -/
def signedTokens (item : Sign × Item) : List Token :=
  .sign item.1 :: item.2.tokens

/-- What an item is worth behind a sign. -/
noncomputable def signedCombination (item : Sign × Item) : Combination :=
  item.1.scale item.2.combination

namespace Side

/-- The tokens of the first item of a side, with the sign in front of it. -/
def firstTokens (side : Side) : List Token :=
  match side.sign with
  | none => side.first.tokens
  | some sign => signedTokens (sign, side.first)

/-- The tokens of a side. -/
def tokens (side : Side) : List Token :=
  side.firstTokens ++ side.rest.flatMap signedTokens

/-- What a side is worth. -/
noncomputable def combination (side : Side) : Combination :=
  (side.sign.getD .plus).scale side.first.combination + (side.rest.map signedCombination).sum

end Side

namespace Equation

/-- The tokens of the left-hand side of an equation. -/
def leftTokens (equation : Equation) : List Token :=
  (equation.left.map Side.tokens).getD []

/-- The tokens of an equation. -/
def tokens (equation : Equation) : List Token :=
  equation.leftTokens ++ .equals :: equation.right.tokens

/-- The text of an equation, with single spaces between its tokens. -/
def text (equation : Equation) : String :=
  Token.spacedText equation.tokens

/-- What the left-hand side of an equation is worth, less what its right-hand
side is worth. -/
noncomputable def combination (equation : Equation) : Combination :=
  (equation.left.map Side.combination).getD 0 - equation.right.combination

end Equation

end Written
end CanonicalEquation
