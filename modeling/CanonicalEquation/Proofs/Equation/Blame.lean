import CanonicalEquation.Proofs.Equation.SignedSequence

/-!
# What the error of a side blames

A side that cannot be read holds a literal that is no term, or a token that
stands where it must not.  The error names this token, and in the second case
its position in the side.  A sign is blamed only at the end of the side.
-/

namespace CanonicalEquation
namespace Side

/-- The errors that blame a token of a side. -/
inductive Blames (side : List Token) : Error → Prop
  /-- A literal is no term. -/
  | notTerm
      {text : String}
      (member : .literal text ∈ side) : Blames side (.notTerm text)
  /-- A token stands where it must not. -/
  | misplaced
      {position : Nat}
      {token : Token}
      (found : side[position]? = some token)
      (signIsLast : token.isSign = true → position + 1 = side.length) :
      Blames side (.misplacedToken token.text position)

theorem OffendsAt.blames
    {side : List Token}
    {position : Nat}
    {error : Error}
    (offends : OffendsAt side position error) : Blames side error := by
  obtain ⟨token, found, offends⟩ := offends
  have isPosition : (side.take position).length = position :=
    List.length_take_of_le (List.getElem?_eq_some_iff.mp found).1.le
  have misplaced : token.isSign = false →
      Blames side (.misplacedToken token.text (side.take position).length) := by
    intro notSign
    rw [isPosition]
    exact .misplaced found fun isSign => absurd isSign (by simp [notSign])
  cases offends with
  | times => exact misplaced rfl
  | equals => exact misplaced rfl
  | unseparated operand lacks => exact misplaced rfl
  | notTerm operand separated noTerm => exact .notTerm (List.mem_of_getElem? found)

/-- The error of a side that cannot be read blames one of its tokens. -/
theorem blames_of_terms
    {side : List Token}
    {error : Error}
    (failed : terms side = .error error) : Blames side error := by
  rcases terms_eq_error_iff.mp failed with ⟨_, offends, _⟩ | ⟨_, _, former, last, rfl, rfl⟩
  · exact offends.blames
  · exact .misplaced List.getElem?_concat_length fun _ => by simp

end Side
end CanonicalEquation
