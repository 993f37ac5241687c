import CanonicalEquation.Error
import CanonicalEquation.Monomial
import CanonicalEquation.Term.Basic
import CanonicalEquation.Text

/-!
# Reading terms

A term is a monomial behind an optional sign.  Blanks of the term grammar may
stand between the sign and the monomial and nowhere else.  In a sequence, only
the first term may be written without a sign, and blanks divide the terms.
-/

namespace CanonicalEquation

/-- The term that a monomial writes behind a sign. -/
def Monomial.toTerm (sign : Sign) (monomial : Monomial) : Term :=
  { sign
    coefficient := monomial.numeral.map Numeral.value
    key :=
      { letters := String.ofList monomial.letters
        power := String.ofList (Monomial.powerChars monomial.exponent) } }

namespace Term

/-- The term that a text is, if it is a term with its sign written. -/
def ofSignedChars? : List Char → Option Term
  | [] => none
  | first :: rest => do
      let sign ← Sign.ofChar? first
      let monomial ← Monomial.ofChars? (rest.dropWhile Text.isTermBlank)
      return monomial.toTerm sign

/-- The term that a text is, if it is one. -/
def ofChars? (text : List Char) : Option Term :=
  if (text.head?.bind Sign.ofChar?).isSome then
    ofSignedChars? text
  else
    (Monomial.ofChars? text).map (Monomial.toTerm .plus)

/-- Reads a text that is one term. -/
def read (text : String) : Except Error Term :=
  match ofChars? text.toList with
  | some term => .ok term
  | none => .error (.notTerm text)

/-- Joins each word that is a sign alone to the word behind it. -/
def attachSigns : List (List Char) → List (List Char)
  | [first] :: word :: rest =>
      if (Sign.ofChar? first).isSome then
        (first :: word) :: attachSigns rest
      else
        [first] :: attachSigns (word :: rest)
  | word :: rest => word :: attachSigns rest
  | [] => []

/-- The terms that words write, all but the first with their signs. -/
def sequenceOfWords? : List (List Char) → Option (List Term)
  | [] => none
  | first :: rest => do
      let head ← ofChars? first
      let tail ← rest.mapM ofSignedChars?
      return head :: tail

/-- The terms of a text that is a sequence of terms. -/
def sequence? (text : List Char) : Option (List Term) :=
  sequenceOfWords? (attachSigns (Text.words Text.isTermBlank text))

/-- Reads a text that is a sequence of terms.  The error names the text
without the blanks at its ends. -/
def readSequence (text : String) : Except Error (List Term) :=
  match sequence? text.toList with
  | some terms => .ok terms
  | none => .error (.notTerm (String.ofList (Text.trim text.toList)))

end Term
end CanonicalEquation
