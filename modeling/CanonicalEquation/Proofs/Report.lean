import CanonicalEquation.Proofs.Equation.Blame
import CanonicalEquation.Proofs.Group.Quotation
import CanonicalEquation.Proofs.Shape
import CanonicalEquation.Proofs.Text.Lines

/-!
# Reports are lines

Whatever an error quotes has no blanks but spaces, since the tokens of a text
have no blanks and its groups are quoted with single spaces.  So the report on a
line is one line again.  It ends in a bracket or in a character of a canonical
form, and hence not as a line of a text may end.
-/

namespace CanonicalEquation

/-! ## What errors quote -/

/-- What is quoted of a side is one of its tokens. -/
theorem Side.quoted_of_terms
    {side : List Token}
    {error : Error}
    (failed : terms side = .error error) : ∃ token ∈ side, error.quoted = token.text := by
  cases blames_of_terms failed with
  | notTerm member => exact ⟨_, member, rfl⟩
  | misplaced found signIsLast => exact ⟨_, List.mem_of_getElem? found, rfl⟩

/-- What an error quotes of a text has no blanks but spaces. -/
theorem blank_of_mem_quoted
    {order : PowerOrder}
    {text : String}
    {error : Error}
    (failed : canonicalForm order text = .error error) :
    ∀ c ∈ error.quoted.toList, c = ' ' ∨ Text.isBlank c = false := by
  -- The error is that of the first stage that fails.
  rcases canonicalForm_eq_error_iff.mp failed with
    ⟨cause, groupsFail, rfl⟩ | ⟨opened, opens, notCut | ⟨equation, cut, notRead⟩⟩
  · exact Group.blank_of_mem_quoted groupsFail
  · rcases Equation.ofTokens_eq_error_iff.mp notCut with ⟨rfl, _⟩ | ⟨rfl, _⟩
    all_goals exact fun c member => absurd member List.not_mem_nil
  · have words := Group.isWord_of_mem_openAll opens
    rw [(Equation.ofTokens_eq_ok_iff.mp cut).1] at words
    obtain ⟨leftWords, rightWords⟩ := List.forall_mem_append.mp words
    obtain ⟨token, member, quoted⟩ := Side.quoted_of_terms notRead
    have isWord := Equation.isWord_of_mem_append_subtract leftWords
      (List.forall_mem_cons.mp rightWords).2 token member
    rw [quoted]
    exact fun c inText => .inr (isWord.solid c inText)

/-! ## Reports as lines -/

namespace Report

/-- The report on a line is one line. -/
theorem isLine_ofLine
    (order : PowerOrder)
    {line : String}
    (noLineFeed : '\n' ∉ line.toList) : Text.IsLine (ofLine order line).toList := by
  unfold ofLine
  cases result : canonicalForm order line with
  | ok canonical =>
      have written := (shape_of_canonicalForm result).2
      refine ⟨fun member => absurd (written '\n' member) (by decide), fun ending => ?_⟩
      exact absurd (written '\r' (List.mem_of_getLast? ending)) (by decide)
  | error error =>
      have quoted : '\n' ∉ error.quoted.toList := fun member =>
        absurd (blank_of_mem_quoted result '\n' member) (by decide)
      refine ⟨?_, ?_⟩
      · refine lineFeed_notMem_append (lineFeed_notMem_append (lineFeed_notMem_append
          (lineFeed_notMem_append ?_ noLineFeed) ?_) (error.lineFeed_notMem_message quoted)) ?_
        all_goals decide
      · have last : "]".toList.getLast? = some ']' := by decide
        rw [String.toList_append, List.getLast?_append, last, Option.some_or]
        decide

/-- The report on a line with a canonical form is not marked. -/
theorem isMarked_of_ok
    {order : PowerOrder}
    {line canonical : String}
    (accepted : canonicalForm order line = .ok canonical) :
    isMarked (ofLine order line) = false := by
  rw [ofLine, accepted]
  exact isMarked_eq_false fun member =>
    (ne_of_occurs ((shape_of_canonicalForm accepted).2 '[' member)).2.2.2 rfl

end Report
end CanonicalEquation
