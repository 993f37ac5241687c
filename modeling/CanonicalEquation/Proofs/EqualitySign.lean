import CanonicalEquation.Proofs.CanonicalForm
import CanonicalEquation.Proofs.Equation.Blame
import CanonicalEquation.Proofs.Group.Front

/-!
# Errors about the equality sign

Opening groups loses no equality sign and adds none, and it leaves one at the end
of the tokens exactly if one stood there.  So where the groups of an equation can
be opened, its own tokens decide whether it is cut into two sides.  No error of
these sides is about the equality sign.
-/

namespace CanonicalEquation
namespace Group

theorem Front.getLast?_eq_equals_iff
    {tokens settled held : List Token}
    (front : Front tokens settled held) :
    (settled ++ held.reverse).getLast? = some .equals ↔ tokens.getLast? = some .equals := by
  cases front with
  | start empty => rw [empty, List.reverse_nil, List.append_nil]
  | held last plain equals =>
      rw [last, List.reverse_cons, ← List.append_assoc, List.getLast?_concat]
  | group former last isPart =>
      rw [last, List.reverse_nil, List.append_nil,
        List.getLast?_append_of_ne_nil former isPart.nonempty]
      exact iff_of_false (fun ends => isPart.noEquals (List.mem_of_getLast? ends)) (by simp)

/-- Opened tokens end with an equality sign exactly if the tokens did. -/
theorem getLast?_of_openAll
    {tokens : List Token}
    (areWords : ∀ token ∈ tokens, token.IsWord)
    {opened : List Token}
    (opens : openAll tokens = .ok opened) :
    opened.getLast? = some .equals ↔ tokens.getLast? = some .equals := by
  obtain ⟨settled, held, rfl, front⟩ := front_of_openAll areWords opens
  exact front.getLast?_eq_equals_iff

end Group

/-- The errors about the equality sign. -/
def Error.IsAboutEquality : Error → Prop
  | incomplete => True
  | tooManyEqualities _ => True
  | _ => False

theorem Side.Blames.not_isAboutEquality
    {side : List Token}
    {error : Error}
    (blames : Blames side error) : ¬error.IsAboutEquality := by
  cases blames with
  | notTerm member => exact id
  | misplaced found signIsLast => exact id

/-- Opened tokens are cut with the same error as the tokens. -/
theorem Equation.ofTokens_openAll_eq_error_iff
    {tokens : List Token}
    (areWords : ∀ token ∈ tokens, token.IsWord)
    {opened : List Token}
    (opens : Group.openAll tokens = .ok opened)
    (error : Error) : ofTokens opened = .error error ↔ ofTokens tokens = .error error := by
  rw [ofTokens_eq_error_iff, ofTokens_eq_error_iff, Group.count_equals_of_openAll areWords opens,
    Group.getLast?_of_openAll areWords opens]

/-- Where the groups of an equation can be opened, its errors about the equality
sign are those with which its tokens are cut. -/
theorem canonicalForm_eq_error_iff_ofTokens
    {order : PowerOrder}
    {text : String}
    {opened : List Token}
    (opens : Group.openAll (Token.scan text) = .ok opened)
    {error : Error}
    (aboutEquality : error.IsAboutEquality) :
    canonicalForm order text = .error error ↔
      Equation.ofTokens (Token.scan text) = .error error := by
  have areWords : ∀ token ∈ Token.scan text, token.IsWord := fun _ => Token.isWord_of_mem_scan
  rw [← Equation.ofTokens_openAll_eq_error_iff areWords opens, canonicalForm_eq_error_iff]
  constructor
  · rintro (⟨cause, _, rfl⟩ | ⟨others, othersOpen, notCut | ⟨equation, _, notRead⟩⟩)
    · exact aboutEquality.elim
    · rw [opens] at othersOpen
      exact Except.ok.inj othersOpen ▸ notCut
    · exact absurd aboutEquality (Side.blames_of_terms notRead).not_isAboutEquality
  · exact fun notCut => .inr ⟨opened, opens, .inl notCut⟩

/-- The errors about the equality sign are exact.  The error of a group that
cannot be opened comes before them. -/
theorem canonicalForm_equality_errors
    (order : PowerOrder)
    (text : String) :
    (∃ cause, (∃ c ∈ text.toList, c = '(' ∨ c = ')') ∧
        Group.openAll (Token.scan text) = .error cause ∧
        canonicalForm order text = .error (.group cause)) ∨
      (¬∃ cause, (∃ c ∈ text.toList, c = '(' ∨ c = ')') ∧
          Group.openAll (Token.scan text) = .error cause) ∧
        (canonicalForm order text = .error .incomplete ↔
          (Token.scan text).count .equals = 0 ∨
            (Token.scan text).count .equals = 1 ∧ (Token.scan text).getLast? = some .equals) ∧
        ∀ number, canonicalForm order text = .error (.tooManyEqualities number) ↔
          2 ≤ (Token.scan text).count .equals ∧ number = (Token.scan text).count .equals := by
  cases opens : Group.openAll (Token.scan text) with
  | error cause =>
      refine .inl ⟨cause, ?_, rfl, canonicalForm_eq_error_iff.mpr (.inl ⟨cause, opens, rfl⟩)⟩
      -- A text without parentheses is opened to its own tokens.
      by_contra none
      have plain : ∀ c ∈ text.toList, c ≠ '(' ∧ c ≠ ')' := fun c member =>
        ⟨fun opening => none ⟨c, member, .inl opening⟩,
          fun closing => none ⟨c, member, .inr closing⟩⟩
      rw [Group.openAll_plain (Token.plain_of_mem_scan plain)] at opens
      cases opens
  | ok opened =>
      refine .inr ⟨fun ⟨_, _, impossible⟩ => (nomatch impossible), ?_, fun number => ?_⟩
      · refine Iff.trans (canonicalForm_eq_error_iff_ofTokens opens trivial) ?_
        rw [Equation.ofTokens_eq_error_iff]
        simp
      · refine Iff.trans (canonicalForm_eq_error_iff_ofTokens opens trivial) ?_
        rw [Equation.ofTokens_eq_error_iff]
        simp [eq_comm, and_comm]

end CanonicalEquation
