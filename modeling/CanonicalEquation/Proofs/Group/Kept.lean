import CanonicalEquation.Proofs.Equation.Place
import CanonicalEquation.Proofs.Group.Replacement

/-!
# Groups that stay as they are written

A group that nothing multiplies stays as it is written, and is read as a part
of its side.  With a factor of one it would be written anew from its terms.
The two are read alike under conditions on how the group is written, which
depend on whether it stands behind a term and on whether its signs are turned
round.
-/

namespace CanonicalEquation

theorem Term.combination_eq_zero_iff
    {term : Term} : term.combination = 0 ↔ term.magnitude = 0 := by
  rw [combination, Finsupp.single_eq_zero, value]
  cases term.sign with
  | plus => rfl
  | minus => exact neg_eq_zero

namespace Group

theorem literal_ne_bareSign
    (sign : Option Sign)
    {monomial : Monomial}
    (wellFormed : monomial.WellFormed)
    (other : Sign) :
    Token.literal (String.ofList (Term.signChars sign ++ monomial.chars)) ≠
      .literal other.text := by
  intro equal
  exact Term.signChars_append_ne_sign sign wellFormed other
    (String.ofList_injective (Token.literal.inj equal))

/-! ## Contents as parts of a side -/

section Content

variable {inner : List Token}
variable {first : Term}
variable {terms : List Term}

/-- Where no term stands in front, a content is read as its terms exactly when
no sign is a literal or attached, except to the first term, and no sign alone
in front of the first term is turned round for nothing. -/
theorem Content.sum?_eq_iff
    (content : Content inner (first :: terms))
    {outer turn : Sign}
    {reading : Side.Reading}
    (ready : reading ≠ .afterTerm)
    (sign : reading.sign = outer * turn) :
    Side.sum? reading (inner.map (Equation.turnBy turn)) =
        some (outer.scale (turn.scale first.combination) +
          turn.scale (Combination.ofTerms terms), .afterTerm) ↔
      (∀ mark : Sign, inner.head? ≠ some (.literal mark.text)) ∧ Apart inner.tail ∧
        (turn = .minus → ∀ mark, inner.head? = some (.sign mark) → first.magnitude = 0) := by
  cases content with
  | word mark wellFormed following =>
      rename_i rest
      have notBare : ∀ other : Sign, (Token.literal (String.ofList
          (Term.signChars mark ++ Monomial.chars _)) :: rest).head? ≠ some (.literal other.text) :=
        fun other equal => literal_ne_bareSign mark wellFormed other (Option.some.inj equal)
      rw [List.map_cons, Equation.turnBy_literal, Side.sum?_written ready mark wellFormed,
        List.tail_cons, sign, Sign.scale_mul]
      by_cases apart : Apart rest
      · rw [sum?_following turn following apart]
        exact ⟨fun _ => ⟨notBare, apart, fun _ _ => nofun⟩, fun _ => rfl⟩
      · rw [sum?_following_of_not_apart turn following apart]
        exact ⟨nofun, fun conditions => absurd conditions.2.1 apart⟩
  | apart mark wellFormed following =>
      rename_i monomial rest
      rw [List.map_cons, List.map_cons, Equation.turnBy_sign, Equation.turnBy_literal,
        sum?_sign_monomial reading _ wellFormed, List.tail_cons, apart_cons_monomial_iff wellFormed,
        sign, Monomial.combination_toTerm (turn * mark), Monomial.combination_toTerm mark,
        Sign.scale_mul, Sign.scale_mul]
      by_cases apart : Apart rest
      · rw [sum?_following turn following apart, Option.map_some, Option.some_inj, Prod.mk_inj,
          and_iff_left rfl, add_left_inj, Sign.scale_inj, Sign.scale_scale_eq_iff,
          ← Monomial.combination_toTerm mark, Term.combination_eq_zero_iff]
        constructor
        · exact fun zero => ⟨fun other => nofun, apart, fun isMinus _ _ => zero isMinus⟩
        · exact fun conditions isMinus => conditions.2.2 isMinus mark rfl
      · rw [sum?_following_of_not_apart turn following apart]
        exact ⟨nofun, fun conditions => absurd conditions.2.1 apart⟩
  | bare mark wellFormed following =>
      rw [List.map_cons, Equation.turnBy_literal, Side.sum?_bareSign]
      exact ⟨nofun, fun conditions => absurd rfl (conditions.1 mark)⟩

/-- Behind a term, a content that begins with a `-` is read as its terms if its
other signs stand alone, and no content without a sign can be read.  So do the
tokens of its terms. -/
theorem Content.sum?_of_afterTerm
    (content : Content inner (first :: terms))
    (notBare : ∀ mark : Sign, inner.head? ≠ some (.literal mark.text))
    (apart : Apart inner.tail)
    (notPlus : inner.head? ≠ some (.sign .plus))
    (notAttached : ∀ text, inner.head? = some (.literal text) → text.toList.head? ≠ some '-')
    (turn : Sign) :
    Side.sum? .afterTerm (inner.map (Equation.turnBy turn)) =
      if first.sign = .minus then
        some (turn.scale first.combination + turn.scale (Combination.ofTerms terms), .afterTerm)
      else
        none := by
  cases content with
  | word mark wellFormed following =>
      have notMinus : mark.getD .plus ≠ .minus := by
        intro minus
        obtain rfl : mark = some .minus := by
          cases mark with
          | none => cases minus
          | some sign => exact congrArg some minus
        exact notAttached _ rfl (by rw [String.toList_ofList]; rfl)
      rw [List.map_cons, Equation.turnBy_literal, Side.sum?_written_of_afterTerm mark wellFormed,
        Monomial.toTerm_sign, if_neg notMinus]
  | apart mark wellFormed following =>
      obtain rfl : mark = .minus := by
        cases mark with
        | plus => exact absurd rfl notPlus
        | minus => rfl
      rw [List.tail_cons, apart_cons_monomial_iff wellFormed] at apart
      rw [List.map_cons, List.map_cons, Equation.turnBy_sign, Equation.turnBy_literal,
        sum?_sign_monomial _ _ wellFormed, sum?_following turn following apart,
        Monomial.toTerm_sign, if_pos rfl, Monomial.combination_toTerm (turn * .minus),
        Monomial.combination_toTerm .minus, Sign.scale_mul]
      rfl
  | bare mark wellFormed following => exact absurd rfl (notBare mark)

/-- Behind a term, a content that is read although it does not meet these
conditions begins with a `+`. -/
theorem Content.sign_of_afterTerm
    (content : Content inner (first :: terms))
    (unlike : ¬((∀ mark : Sign, inner.head? ≠ some (.literal mark.text)) ∧ Apart inner.tail ∧
      inner.head? ≠ some (.sign .plus) ∧
      ∀ text, inner.head? = some (.literal text) → text.toList.head? ≠ some '-'))
    {turn : Sign}
    {result : Combination × Side.Reading}
    (reads : Side.sum? .afterTerm (inner.map (Equation.turnBy turn)) = some result) :
    first.sign = .plus := by
  cases content with
  | word mark wellFormed following =>
      rw [List.map_cons, Equation.turnBy_literal, Side.sum?_written_of_afterTerm mark wellFormed]
        at reads
      cases reads
  | apart mark wellFormed following =>
      rename_i monomial rest
      cases mark with
      | plus => rfl
      | minus =>
          refine absurd ⟨fun other => nofun, ?_, nofun, fun text => nofun⟩ unlike
          rw [List.tail_cons, apart_cons_monomial_iff wellFormed]
          by_contra notApart
          rw [List.map_cons, List.map_cons, Equation.turnBy_sign, Equation.turnBy_literal,
            sum?_sign_monomial _ _ wellFormed,
            sum?_following_of_not_apart turn following notApart] at reads
          cases reads
  | bare mark wellFormed following =>
      rw [List.map_cons, Equation.turnBy_literal, Side.sum?_bareSign] at reads
      cases reads

end Content

/-! ## Groups and multiplied terms as parts -/

theorem endsTerm_cons_literal
    {text : String}
    (notParenthesis : Side.isParenthesis text = false)
    {rest : List Token}
    (ends : rest = [] ∨ Side.EndsTerm rest) : Side.EndsTerm (.literal text :: rest) := by
  rcases ends with rfl | ends
  · exact Side.endsTerm_literal notParenthesis
  · exact ends.append [.literal text]

theorem endsTerm_cons_written
    (sign : Option Sign)
    {monomial : Monomial}
    (wellFormed : monomial.WellFormed)
    {rest : List Token}
    (ends : rest = [] ∨ Side.EndsTerm rest) :
    Side.EndsTerm
      (.literal (String.ofList (Term.signChars sign ++ monomial.chars)) :: rest) :=
  endsTerm_cons_literal
    (Side.isParenthesis_eq_false (Side.hasParenthesis_written sign wellFormed)) ends

theorem Following.endsTerm
    {tokens : List Token}
    {terms : List Term}
    (following : Following tokens terms) : tokens = [] ∨ Side.EndsTerm tokens := by
  induction following with
  | nil => exact .inl rfl
  | apart mark wellFormed following inductionHypothesis =>
      exact .inr ((endsTerm_cons_written none wellFormed inductionHypothesis).append [.sign mark])
  | bare mark wellFormed following inductionHypothesis =>
      exact .inr ((endsTerm_cons_written none wellFormed inductionHypothesis).append
        [.literal mark.text])
  | attached mark wellFormed following inductionHypothesis =>
      exact .inr (endsTerm_cons_written (some mark) wellFormed inductionHypothesis)

theorem Content.endsTerm
    {inner : List Token}
    {terms : List Term}
    (content : Content inner terms) : Side.EndsTerm inner := by
  cases content with
  | word mark wellFormed following => exact endsTerm_cons_written mark wellFormed following.endsTerm
  | apart mark wellFormed following =>
      exact (endsTerm_cons_written none wellFormed following.endsTerm).append [.sign mark]
  | bare mark wellFormed following =>
      exact (endsTerm_cons_written none wellFormed following.endsTerm).append [.literal mark.text]

theorem Content.ne_nil
    {inner : List Token}
    {terms : List Term}
    (content : Content inner terms) : inner ≠ [] := by
  cases content <;> exact List.cons_ne_nil _ _

theorem Content.exists_cons
    {inner : List Token}
    {terms : List Term}
    (content : Content inner terms) : ∃ first rest, terms = first :: rest := by
  cases content <;> exact ⟨_, _, rfl⟩

theorem endsTerm_termTokens
    (signed : Bool)
    {first : Term}
    {rest : List Term}
    (wellFormed : ∀ term ∈ first :: rest, term.WellFormed) :
    Side.EndsTerm (termTokens signed (first :: rest)) := by
  intro sign reading result reads
  by_cases begins : signed = true ∨ first.sign = .minus
  · rw [sum?_termTokens_sign signed begins wellFormed] at reads
    cases reads
    rfl
  · rw [not_or, Bool.not_eq_true] at begins
    obtain ⟨rfl, notMinus⟩ := begins
    by_cases ready : reading = .afterTerm
    · rw [ready, sum?_termTokens_of_afterTerm wellFormed, if_neg notMinus] at reads
      cases reads
    · have positive : first.sign = .plus := by
        cases begins : first.sign with
        | plus => rfl
        | minus => exact absurd begins notMinus
      rw [sum?_termTokens_literal positive wellFormed sign ready] at reads
      cases reads
      rfl

section Parts

variable {enclosure : Enclosure}
variable {first : Term}
variable {terms : List Term}

/-- Whatever replaces a group is a part of a side. -/
theorem isPart_replacement
    (wellFormed : enclosure.WellFormed)
    (content : Content enclosure.inner (first :: terms))
    (sign : Option Sign)
    {factors : List Rat}
    (finite : ∀ factor ∈ factors, Decimal.IsFinite factor) :
    Equation.IsPart (replacement sign factors enclosure.tokens (first :: terms)) := by
  refine ⟨Regular.replacement_ne_nil _ _ _ _ _, equals_notMem_replacement _ _ wellFormed _, ?_⟩
  unfold replacement
  split
  · apply Side.EndsTerm.append
    intro turn reading result reads
    rw [Enclosure.sum?_tokens wellFormed content.ne_nil] at reads
    exact content.endsTerm turn reading result reads
  · rw [List.map_cons]
    apply endsTerm_termTokens
    rw [← List.map_cons]
    intro term member
    obtain ⟨original, inTerms, rfl⟩ := List.mem_map.mp member
    exact wellFormed_multiply sign (isFinite_product finite) (content.wellFormed original inTerms)

end Parts

end Group
end CanonicalEquation
