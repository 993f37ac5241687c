import CanonicalEquation.Error

/-!
# What errors quote

An error quotes at most one piece of an equation, and its message is a fixed
text around that piece and around a number.  So a message has a line feed only
where the piece that it quotes has one.
-/

namespace CanonicalEquation

/-- The piece of the equation that a group error quotes. -/
def GroupError.quoted : GroupError → String
  | nested near => near
  | unbalanced near => near
  | empty => ""
  | notNumber factor => factor
  | notTerms content => content

/-- The piece of the equation that an error quotes. -/
def Error.quoted : Error → String
  | notTerm text => text
  | group cause => cause.quoted
  | incomplete => ""
  | tooManyEqualities _ => ""
  | misplacedToken text _ => text

/-- A group error without what it quotes. -/
def GroupError.kind : GroupError → GroupError
  | nested _ => nested ""
  | unbalanced _ => unbalanced ""
  | empty => empty
  | notNumber _ => notNumber ""
  | notTerms _ => notTerms ""

/-! ## Messages -/

theorem lineFeed_notMem_toString (number : Nat) : '\n' ∉ (toString number).toList := by
  rw [Nat.toString_eq_repr, Nat.toList_repr]
  intro member
  exact absurd (Nat.isDigit_of_mem_toDigits (by decide) (by decide) member) (by decide)

theorem lineFeed_notMem_append
    {former latter : String}
    (formerPlain : '\n' ∉ former.toList)
    (latterPlain : '\n' ∉ latter.toList) : '\n' ∉ (former ++ latter).toList := by
  rw [String.toList_append, List.mem_append, not_or]
  exact ⟨formerPlain, latterPlain⟩

/-- The message of a group error has no line feed that is not quoted. -/
theorem GroupError.lineFeed_notMem_message
    {cause : GroupError}
    (quoted : '\n' ∉ cause.quoted.toList) : '\n' ∉ cause.message.toList := by
  have between : ∀ former latter : String, '\n' ∉ former.toList → '\n' ∉ latter.toList →
      '\n' ∉ (former ++ cause.quoted ++ latter).toList := fun _ _ formerPlain latterPlain =>
    lineFeed_notMem_append (lineFeed_notMem_append formerPlain quoted) latterPlain
  cases cause with
  | nested near =>
      exact between "nested parentheses are not supported near '" "'" (by decide) (by decide)
  | unbalanced near => exact between "unbalanced parentheses near '" "'" (by decide) (by decide)
  | empty => decide
  | notNumber factor => exact between "factor '" "' is not a number" (by decide) (by decide)
  | notTerms content =>
      exact between "malformed term inside parentheses: '" "'" (by decide) (by decide)

/-- The message of an error has no line feed that is not quoted. -/
theorem Error.lineFeed_notMem_message
    {error : Error}
    (quoted : '\n' ∉ error.quoted.toList) : '\n' ∉ error.message.toList := by
  have between : ∀ former latter : String, '\n' ∉ former.toList → '\n' ∉ latter.toList →
      '\n' ∉ (former ++ error.quoted ++ latter).toList := fun _ _ formerPlain latterPlain =>
    lineFeed_notMem_append (lineFeed_notMem_append formerPlain quoted) latterPlain
  cases error with
  | notTerm text => exact between "malformed term: '" "'" (by decide) (by decide)
  | group cause =>
      have before : '\n' ∉ "could not expand parentheses: ".toList := by decide
      exact lineFeed_notMem_append before (GroupError.lineFeed_notMem_message quoted)
  | incomplete => decide
  | tooManyEqualities count =>
      have before : '\n' ∉ "equation must contain exactly one '=', found ".toList := by decide
      exact lineFeed_notMem_append before (lineFeed_notMem_toString count)
  | misplacedToken text position =>
      have before := between "unexpected token '" "' at position " (by decide) (by decide)
      exact lineFeed_notMem_append before (lineFeed_notMem_toString position)

end CanonicalEquation
