import CanonicalEquation.Proofs.Acceptance
import CanonicalEquation.Proofs.Equation.Blame

/-!
# The position of a misplaced token

An equation is read with its right-hand side moved to the left, and this is
where the position of a misplaced token is counted.  On the left-hand side it is
the position in the text, and also behind a `-` that stands for the equality
sign.  On a right-hand side that begins with a sign it is one less, since nothing
stands for the equality sign.  A sign that is misplaced at the end of the
right-hand side is named as it is turned round.
-/

namespace CanonicalEquation
namespace Token

/-- Whether a position is that of a token with the given text. -/
def PointsTo
    (tokens : List Token)
    (position : Nat)
    (text : String) : Prop :=
  ∃ inside : position < tokens.length, tokens[position].text = text

theorem pointsTo_iff_exists
    {tokens : List Token}
    {position : Nat}
    {text : String} :
    PointsTo tokens position text ↔ ∃ token, tokens[position]? = some token ∧ token.text = text := by
  constructor
  · rintro ⟨inside, named⟩
    exact ⟨tokens[position], List.getElem?_eq_getElem inside, named⟩
  · rintro ⟨token, found, named⟩
    obtain ⟨inside, rfl⟩ := List.getElem?_eq_some_iff.mp found
    exact ⟨inside, named⟩

theorem pointsTo_iff_of_found
    {tokens : List Token}
    {position : Nat}
    {token : Token}
    (found : tokens[position]? = some token)
    (text : String) : PointsTo tokens position text ↔ token.text = text := by
  rw [pointsTo_iff_exists, found]
  exact ⟨fun ⟨_, same, named⟩ => Option.some.inj same ▸ named, fun named => ⟨token, rfl, named⟩⟩

/-- Words with the same text are the same token. -/
theorem pointsTo_text_iff
    {tokens : List Token}
    (areWords : ∀ token ∈ tokens, token.IsWord)
    {token : Token}
    (isWord : token.IsWord)
    {position : Nat} :
    PointsTo tokens position token.text ↔ tokens[position]? = some token := by
  rw [pointsTo_iff_exists]
  constructor
  · rintro ⟨other, found, named⟩
    have otherIsWord := areWords other (List.mem_of_getElem? found)
    rw [found, ← otherIsWord.readBack, named, isWord.readBack]
  · intro found
    exact ⟨token, found, rfl⟩

end Token

namespace Equation

theorem text_turnSign_eq_iff
    {token : Token} : token.text = (turnSign token).text ↔ token.isSign = false := by
  cases token with
  | sign sign => cases sign <;> decide
  | equals => exact iff_of_true rfl rfl
  | times => exact iff_of_true rfl rfl
  | literal text => exact iff_of_true rfl rfl

/-! ## Positions behind the left-hand side -/

theorem getElem?_append_add
    (left latter : List Token)
    (offset : Nat) : (left ++ latter)[left.length + offset]? = latter[offset]? := by
  rw [List.getElem?_append_right (Nat.le_add_right _ _), Nat.add_sub_cancel_left]

/-- Behind the left-hand side, the position of a token of a right-hand side that
begins with a sign is one less than in the equation. -/
theorem exists_token_of_signed
    {left right : List Token}
    (signed : right.head?.any Token.isSign = true)
    {position : Nat}
    (behind : left.length ≤ position)
    {moved : Token}
    (found : (left ++ subtract right)[position]? = some moved) :
    ∃ token, (left ++ .equals :: right)[position + 1]? = some token ∧ moved = turnSign token := by
  obtain ⟨offset, rfl⟩ := Nat.exists_eq_add_of_le behind
  rw [getElem?_append_add, subtract, if_pos signed, List.getElem?_map] at found
  obtain ⟨token, inRight, turned⟩ := Option.map_eq_some_iff.mp found
  refine ⟨token, ?_, turned.symm⟩
  rw [Nat.add_assoc, getElem?_append_add, List.getElem?_cons_succ]
  exact inRight

/-- Behind the left-hand side and the `-` that stands for the equality sign, the
position of a token is that in the equation. -/
theorem exists_token_of_unsigned
    {left right : List Token}
    (unsigned : ¬right.head?.any Token.isSign = true)
    {position : Nat}
    (behind : left.length ≤ position)
    {moved : Token}
    (found : (left ++ subtract right)[position]? = some moved) :
    position = left.length ∧ moved = .sign .minus ∨
      ∃ token, (left ++ .equals :: right)[position]? = some token ∧ moved = turnSign token := by
  obtain ⟨offset, rfl⟩ := Nat.exists_eq_add_of_le behind
  rw [getElem?_append_add, subtract, if_neg unsigned] at found
  cases offset with
  | zero =>
      obtain rfl := Option.some.inj found
      exact .inl ⟨rfl, rfl⟩
  | succ offset =>
      rw [List.getElem?_cons_succ, List.getElem?_map] at found
      obtain ⟨token, inRight, turned⟩ := Option.map_eq_some_iff.mp found
      refine .inr ⟨token, ?_, turned.symm⟩
      rw [getElem?_append_add, List.getElem?_cons_succ]
      exact inRight

theorem lt_length_append_subtract
    (left : List Token)
    {right : List Token}
    (nonempty : right ≠ [])
    (unsigned : ¬right.head?.any Token.isSign = true) :
    left.length + 1 < (left ++ subtract right).length := by
  have positive := List.length_pos_iff.mpr nonempty
  rw [subtract, if_neg unsigned, List.length_append, List.length_cons, List.length_map]
  omega

end Equation

/-! ## Misplaced tokens of a text -/

/-- A token of a text is misplaced where the right-hand side is moved to the
left. -/
theorem exists_cut_of_misplacedToken
    {order : PowerOrder}
    {text : String}
    (plain : ∀ c ∈ text.toList, c ≠ '(' ∧ c ≠ ')')
    {named : String}
    {position : Nat}
    (failed : canonicalForm order text = .error (.misplacedToken named position)) :
    ∃ left right, Equation.IsCut (Token.scan text) left right ∧
      Side.terms (left ++ Equation.subtract right) = .error (.misplacedToken named position) := by
  have opens := Group.openAll_plain (Token.plain_of_mem_scan plain)
  rcases canonicalForm_eq_error_iff.mp failed with
    ⟨cause, _, impossible⟩ | ⟨opened, scanOpens, notCut | ⟨equation, cut, notRead⟩⟩
  · cases impossible
  · rcases Equation.ofTokens_eq_error_iff.mp notCut with ⟨impossible, _⟩ | ⟨impossible, _⟩
    all_goals cases impossible
  · obtain rfl := Except.ok.inj (opens.symm.trans scanOpens)
    exact ⟨equation.left, equation.right, Equation.isCut_of_ofTokens cut, notRead⟩

/-- Where the position of a misplaced token points to.  It is the position of the
token on the left-hand side.  On a right-hand side that begins with a sign, the
token is the one behind that position.  On any other right-hand side the position
is that of the token, but a sign is named as it is turned round. -/
theorem misplacedToken_pointsTo_iff
    {order : PowerOrder}
    {text : String}
    (plain : ∀ c ∈ text.toList, c ≠ '(' ∧ c ≠ ')')
    {named : String}
    {position : Nat}
    (failed : canonicalForm order text = .error (.misplacedToken named position)) :
    ∃ left right, Equation.IsCut (Token.scan text) left right ∧
      (position < left.length → Token.PointsTo (Token.scan text) position named) ∧
      (left.length ≤ position → right.head?.any Token.isSign = true →
        ∃ token, (Token.scan text)[position + 1]? = some token ∧
          named = (Equation.turnSign token).text ∧
          (Token.PointsTo (Token.scan text) position named ↔
            (Token.scan text)[position]? = some (Equation.turnSign token))) ∧
      (left.length ≤ position → ¬right.head?.any Token.isSign = true →
        ∃ token, (Token.scan text)[position]? = some token ∧
          named = (Equation.turnSign token).text ∧
          (Token.PointsTo (Token.scan text) position named ↔ token.isSign = false)) := by
  obtain ⟨left, right, cut, notRead⟩ := exists_cut_of_misplacedToken plain failed
  have words : ∀ token ∈ Token.scan text, token.IsWord := fun _ => Token.isWord_of_mem_scan
  refine ⟨left, right, cut, ?_⟩
  cases Side.blames_of_terms notRead with
  | @misplaced _ moved found signIsLast =>
      refine ⟨fun inLeft => ?_, fun behind signed => ?_, fun behind unsigned => ?_⟩
      · refine (Token.pointsTo_iff_of_found ?_ _).mpr rfl
        rw [cut.tokens_eq, List.getElem?_append_left inLeft, ← found,
          List.getElem?_append_left inLeft]
      · obtain ⟨token, inText, rfl⟩ := Equation.exists_token_of_signed signed behind found
        rw [← cut.tokens_eq] at inText
        have isWord := Equation.isWord_turnSign (words token (List.mem_of_getElem? inText))
        exact ⟨token, inText, rfl, Token.pointsTo_text_iff words isWord⟩
      · rcases Equation.exists_token_of_unsigned unsigned behind found with
          ⟨atEquals, rfl⟩ | ⟨token, inText, rfl⟩
        · -- The `-` that stands for the equality sign is not the last token.
          have last := signIsLast rfl
          have notLast := Equation.lt_length_append_subtract left cut.right_nonempty unsigned
          omega
        · rw [← cut.tokens_eq] at inText
          refine ⟨token, inText, rfl, ?_⟩
          rw [Token.pointsTo_iff_of_found inText, Equation.text_turnSign_eq_iff]

-- The `+` at the end of `x = y +` is named as it is turned round.
example : canonicalForm .textual "x = y +" = .error (.misplacedToken "-" 3) := by rfl

/-- In `x = - y z` the second term on the right-hand side is misplaced, and the
position is that of the first one. -/
theorem misplacedToken_behind_sign :
    (∀ c ∈ "x = - y z".toList, c ≠ '(' ∧ c ≠ ')') ∧
      canonicalForm .textual "x = - y z" = .error (.misplacedToken "z" 3) ∧
      ¬Token.PointsTo (Token.scan "x = - y z") 3 "z" := by
  have plain : ∀ c ∈ "x = - y z".toList, c ≠ '(' ∧ c ≠ ')' := by simp
  have failed : canonicalForm .textual "x = - y z" = .error (.misplacedToken "z" 3) := by rfl
  have scanned : Token.scan "x = - y z" =
      [.literal "x", .equals, .sign .minus, .literal "y", .literal "z"] := by rfl
  have known : Equation.IsCut (Token.scan "x = - y z") [.literal "x"]
      [.sign .minus, .literal "y", .literal "z"] := ⟨scanned, by decide, by decide, by decide⟩
  refine ⟨plain, failed, ?_⟩
  obtain ⟨left, right, cut, _, behindSign, _⟩ := misplacedToken_pointsTo_iff plain failed
  obtain rfl := known.left_eq cut
  obtain rfl : right = [.sign .minus, .literal "y", .literal "z"] := by
    have equal := known.tokens_eq.symm.trans cut.tokens_eq
    exact (List.cons.inj (List.append_cancel_left equal)).2.symm
  obtain ⟨token, found, _, points⟩ := behindSign (by decide) rfl
  rw [points, scanned]
  rw [scanned] at found
  obtain rfl : .literal "z" = token := Option.some.inj found
  decide

end CanonicalEquation
