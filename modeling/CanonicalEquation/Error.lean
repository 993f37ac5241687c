/-!
# Errors

Why an equation could not be brought into its canonical form.  Each cause
carries the piece of the input that shows it, and has one message.
-/

namespace CanonicalEquation

/-- Why a group in parentheses could not be opened. -/
inductive GroupError where
  /-- A parenthesis opens inside a group. -/
  | nested (near : String)
  /-- A parenthesis has no partner. -/
  | unbalanced (near : String)
  /-- Nothing stands between the parentheses. -/
  | empty
  /-- What multiplies a group is not an unsigned number. -/
  | notNumber (factor : String)
  /-- What stands between the parentheses is not a sequence of terms. -/
  | notTerms (content : String)
deriving DecidableEq

/-- Why a text has no canonical form. -/
inductive Error where
  /-- A text is not a term. -/
  | notTerm (text : String)
  /-- A group could not be opened. -/
  | group (cause : GroupError)
  /-- The equality sign or the right-hand side is missing. -/
  | incomplete
  /-- There is more than one equality sign. -/
  | tooManyEqualities (count : Nat)
  /-- A token stands where it must not. -/
  | misplacedToken (text : String) (position : Nat)
deriving DecidableEq

/-- The message of a group error. -/
def GroupError.message : GroupError → String
  | nested near => s!"nested parentheses are not supported near '{near}'"
  | unbalanced near => s!"unbalanced parentheses near '{near}'"
  | empty => "empty parentheses"
  | notNumber factor => s!"factor '{factor}' is not a number"
  | notTerms content => s!"malformed term inside parentheses: '{content}'"

/-- The message of an error. -/
def Error.message : Error → String
  | notTerm text => s!"malformed term: '{text}'"
  | group cause => s!"could not expand parentheses: {cause.message}"
  | incomplete => "equation must contain '=' followed by a right-hand side"
  | tooManyEqualities count => s!"equation must contain exactly one '=', found {count}"
  | misplacedToken text position => s!"unexpected token '{text}' at position {position}"

end CanonicalEquation
