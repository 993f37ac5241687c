import CanonicalEquation.Proofs.CanonicalForm
import CanonicalEquation.Proofs.Written.Reading

/-!
# The canonical form of a written equation

The text of a written equation is scanned as its tokens, whose groups are
opened without changing what the equation is worth.  Its canonical form is the
text of this worth, with every number written exactly.
-/

namespace CanonicalEquation
namespace Written

/-! ## Scanning the text -/

namespace Sum

theorem isWord_closingTokens
    {word : List Char}
    (isWord : (Token.literal (String.ofList word)).IsWord)
    (rest : List (Sign × Unsigned)) : ∀ token ∈ closingTokens word rest, token.IsWord := by
  induction rest generalizing word with
  | nil =>
      have nonempty := isWord.nonempty
      have solid := isWord.solid
      rw [Token.text_literal, String.toList_ofList] at nonempty solid
      refine List.forall_mem_singleton.mpr ?_
      apply Token.isWord_literal (List.append_ne_nil_of_left_ne_nil nonempty _)
      · exact solid.append fun c member => List.mem_singleton.mp member ▸ rfl
      · intro c single
        have length := congrArg List.length single
        rw [List.length_append, List.length_singleton, List.length_singleton] at length
        exact absurd (List.length_eq_zero_iff.mp (by omega)) nonempty
  | cons next others inductionHypothesis =>
      exact List.forall_mem_cons.mpr ⟨isWord, List.forall_mem_cons.mpr
        ⟨Token.isWord_sign next.1, inductionHypothesis (Side.isWord_written none next.2.property)⟩⟩

theorem isWord_tokens (sum : Sum) : ∀ token ∈ sum.tokens, token.IsWord := by
  apply isWord_closingTokens
  apply Token.isWord_literal (List.cons_ne_nil _ _)
  · intro c member
    rcases List.mem_cons.mp member with rfl | inFirst
    · rfl
    · exact Term.solid_signChars_append _ sum.first.monomial.property c inFirst
  · intro c single
    rw [← (List.cons_eq_cons.mp single).1]
    decide

end Sum

theorem isWord_leadTokens (factors : List Factor) :
    ∀ token ∈ Group.leadTokens (numeralsOf factors), token.IsWord := by
  intro token member
  obtain ⟨numeral, inNumerals, inPair⟩ := List.mem_flatMap.mp member
  rcases List.mem_cons.mp inPair with rfl | inLast
  · exact (CanonicalEquation.Side.isWord_numeral
      (wellFormed_numeralsOf factors numeral inNumerals)).1
  · obtain rfl := List.mem_singleton.mp inLast
    exact Token.isWord_times

theorem isWord_factorTokens (factors : List Factor) :
    ∀ token ∈ Group.factorTokens (numeralsOf factors), token.IsWord := by
  intro token member
  obtain ⟨numeral, inNumerals, inPair⟩ := List.mem_flatMap.mp member
  rcases List.mem_cons.mp inPair with rfl | inLast
  · exact Token.isWord_times
  · obtain rfl := List.mem_singleton.mp inLast
    exact (CanonicalEquation.Side.isWord_numeral
      (wellFormed_numeralsOf factors numeral inNumerals)).1

theorem Literal.isWord_token (literal : Literal) : literal.token.IsWord :=
  Side.isWord_written literal.sign literal.monomial.property

theorem Bracket.isWord_tokens (bracket : Bracket) : ∀ token ∈ bracket.tokens, token.IsWord :=
  List.forall_mem_append.mpr ⟨isWord_leadTokens bracket.before,
    List.forall_mem_append.mpr ⟨bracket.sum.isWord_tokens, isWord_factorTokens bracket.after⟩⟩

theorem Item.isWord_tokens (item : Item) : ∀ token ∈ item.tokens, token.IsWord := by
  cases item with
  | literal written => exact List.forall_mem_singleton.mpr written.isWord_token
  | bracket written => exact written.isWord_tokens

theorem isWord_signedTokens (item : Sign × Item) : ∀ token ∈ signedTokens item, token.IsWord :=
  List.forall_mem_cons.mpr ⟨Token.isWord_sign item.1, item.2.isWord_tokens⟩

theorem Side.isWord_tokens (side : Side) : ∀ token ∈ side.tokens, token.IsWord := by
  refine List.forall_mem_append.mpr ⟨?_, ?_⟩
  · unfold firstTokens
    cases side.sign with
    | none => exact side.first.isWord_tokens
    | some sign => exact isWord_signedTokens (sign, side.first)
  · intro token member
    obtain ⟨item, _, inItem⟩ := List.mem_flatMap.mp member
    exact isWord_signedTokens item token inItem

theorem Equation.isWord_tokens (equation : Equation) :
    ∀ token ∈ equation.tokens, token.IsWord := by
  refine List.forall_mem_append.mpr ⟨?_, ?_⟩
  · unfold leftTokens
    cases equation.left with
    | none => exact List.forall_mem_nil _
    | some left => exact left.isWord_tokens
  · exact List.forall_mem_cons.mpr ⟨Token.isWord_equals, equation.right.isWord_tokens⟩

/-! ## Finite decimal expansions -/

theorem Literal.wellFormed_term (literal : Literal) : literal.term.WellFormed :=
  Monomial.wellFormed_toTerm _ literal.monomial.property

theorem Sum.wellFormed_terms (sum : Sum) : ∀ term ∈ sum.terms, term.WellFormed := by
  refine List.forall_mem_cons.mpr ⟨sum.first.wellFormed_term, ?_⟩
  intro term member
  obtain ⟨⟨sign, monomial⟩, _, rfl⟩ := List.mem_map.mp member
  exact Monomial.wellFormed_toTerm sign monomial.property

theorem Bracket.isFinite_combination (bracket : Bracket) : bracket.combination.IsFinite := by
  unfold combination
  rw [← bracket.product_factors]
  exact (Combination.isFinite_ofTerms bracket.sum.wellFormed_terms).smul
    (Group.isFinite_product bracket.isFinite_factors)

theorem Item.isFinite_combination (item : Item) : item.combination.IsFinite := by
  cases item with
  | literal written => exact Combination.isFinite_combination written.wellFormed_term
  | bracket written => exact written.isFinite_combination

theorem Side.isFinite_combination (side : Side) : side.combination.IsFinite := by
  refine (side.first.isFinite_combination.scale _).add (Combination.IsFinite.sum ?_)
  intro combination member
  obtain ⟨item, _, rfl⟩ := List.mem_map.mp member
  exact item.2.isFinite_combination.scale item.1

theorem Equation.isFinite_combination (equation : Equation) :
    equation.combination.IsFinite := by
  unfold combination
  rw [sub_eq_add_neg]
  refine Combination.IsFinite.add ?_ equation.right.isFinite_combination.neg
  cases equation.left with
  | none => exact .zero
  | some left => exact left.isFinite_combination

/-! ## The canonical form -/

namespace Equation

theorem textWorth?_text (equation : Equation) :
    textWorth? equation.text = some equation.combination := by
  obtain ⟨opened, opens, worth⟩ := equation.exists_opened
  rw [textWorth?, text, Token.scan_spacedText equation.isWord_tokens, opens]
  exact worth

/-- The canonical form of a written equation is the text of its left-hand side
less its right-hand side, and the text writes every number exactly. -/
theorem canonicalForm_text (equation : Equation) :
    canonicalForm .textual equation.text = .ok equation.combination.text ∧
      ∀ key, ∃ numeral : Numeral, numeral.WellFormed ∧ numeral.IsCanonical ∧
        numeral.value = |equation.combination key| ∧
        Decimal.render |equation.combination key| = String.ofList numeral.chars :=
  ⟨canonicalForm_textual equation.textWorth?_text, equation.isFinite_combination.exists_numeral⟩

example : canonicalForm .textual "2 * (x - 0.5y) + 1 = - (y^2)" = .ok "y^2 + 2x - y + 1 = 0" := by
  decide +kernel

end Equation
end Written
end CanonicalEquation
