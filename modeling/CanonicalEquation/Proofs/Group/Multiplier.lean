import CanonicalEquation.Group.Multiplier
import CanonicalEquation.Proofs.Group.Content
import Mathlib.Algebra.BigOperators.Group.List.Basic
import Mathlib.Tactic.Ring

/-!
# Multiplied groups

The factors and the sign of a group multiply each of its terms.  The tokens of
the multiplied terms are written with numbers that have a finite decimal
expansion, so reading them again gives the multiplied terms and nothing is
lost on the way.
-/

namespace CanonicalEquation

theorem Term.value_opposite (term : Term) : term.opposite.value = -term.value := by
  obtain ⟨sign, coefficient, key⟩ := term
  cases sign
  · rfl
  · exact (neg_neg _).symm

theorem Term.magnitude_scaledBy
    (factor : Rat)
    (term : Term) : (term.scaledBy factor).magnitude = |term.magnitude * factor| :=
  Decimal.abs_eq_abs _

theorem Term.value_scaledBy
    (factor : Rat)
    (term : Term) : (term.scaledBy factor).value = factor * term.value := by
  rw [Term.value, magnitude_scaledBy]
  change (if term.magnitude * factor < 0 then -term.sign else term.sign).apply _ = _
  have product : factor * term.value = term.sign.apply (term.magnitude * factor) := by
    rw [Term.value]
    cases term.sign
    · exact mul_comm _ _
    · rw [Sign.apply_minus, Sign.apply_minus]
      ring
  rw [product]
  by_cases negative : term.magnitude * factor < 0
  · rw [if_pos negative, abs_of_neg negative]
    cases term.sign
    · exact neg_neg _
    · rfl
  · rw [if_neg negative, abs_of_nonneg (not_lt.mp negative)]

namespace Group

theorem value_multiply
    (sign : Option Sign)
    (factor : Rat)
    (term : Term) :
    (multiply sign factor term).value = (sign.getD .plus).apply (factor * term.value) := by
  unfold multiply
  rcases sign with _ | _ | _
  · exact Term.value_scaledBy factor term
  · exact Term.value_scaledBy factor term
  · exact (Term.value_opposite _).trans (congrArg Neg.neg (Term.value_scaledBy factor term))

theorem key_multiply
    (sign : Option Sign)
    (factor : Rat)
    (term : Term) : (multiply sign factor term).key = term.key := by
  unfold multiply
  split <;> rfl

theorem magnitude_multiply
    (sign : Option Sign)
    (factor : Rat)
    (term : Term) : (multiply sign factor term).magnitude = |term.magnitude * factor| := by
  rw [← Term.magnitude_scaledBy]
  unfold multiply
  split <;> rfl

/-- A term of a group is multiplied by the factor of the group, and turned
round behind a `-`. -/
theorem combination_multiply
    (sign : Option Sign)
    (factor : Rat)
    (term : Term) :
    (multiply sign factor term).combination =
      (sign.getD .plus).scale (factor • term.combination) := by
  rw [Term.combination, Term.combination, Finsupp.smul_single, smul_eq_mul, Sign.scale_single,
    value_multiply, key_multiply]

theorem ofTerms_map_multiply
    (sign : Option Sign)
    (factor : Rat)
    (terms : List Term) :
    Combination.ofTerms (terms.map (multiply sign factor)) =
      (sign.getD .plus).scale (factor • Combination.ofTerms terms) := by
  induction terms with
  | nil => rw [List.map_nil, Combination.ofTerms_nil, smul_zero, Sign.scale_zero]
  | cons first rest inductionHypothesis =>
      rw [List.map_cons, Combination.ofTerms_cons, combination_multiply, inductionHypothesis,
        ← Sign.scale_add, ← smul_add, Combination.ofTerms_cons]

/-- A term can still be written when a number with a finite decimal expansion
has multiplied it. -/
theorem wellFormed_multiply
    (sign : Option Sign)
    {factor : Rat}
    (finite : Decimal.IsFinite factor)
    {term : Term}
    (wellFormed : term.WellFormed) : (multiply sign factor term).WellFormed := by
  refine ⟨?_, ?_, ?_⟩
  · rw [key_multiply]
    exact wellFormed.key_wellFormed
  · rw [magnitude_multiply]
    exact abs_nonneg _
  · rw [magnitude_multiply]
    exact (wellFormed.magnitude_isFinite.mul finite).abs

/-! ## Reading multiplied terms -/

theorem leadingTokens_of_sign
    {signed : Bool}
    {term : Term}
    (begins : signed = true ∨ term.sign = .minus) :
    leadingTokens signed term = followingTokens term := by
  rw [leadingTokens, if_pos]
  simpa using begins

theorem leadingTokens_of_literal
    {term : Term}
    (positive : term.sign = .plus) : leadingTokens false term = [.literal term.unsignedText] := by
  rw [leadingTokens, positive]
  rfl

/-- The unsigned text of a term is a monomial that is worth what the term is
worth, behind the sign of the term. -/
theorem exists_monomial
    {term : Term}
    (wellFormed : term.WellFormed) :
    ∃ monomial : Monomial, monomial.WellFormed ∧
      term.unsignedText = String.ofList monomial.chars ∧
      ∀ sign, (monomial.toTerm (sign * term.sign)).combination = sign.scale term.combination := by
  refine ⟨term.monomial, (Term.wellFormed_monomial wellFormed).1, ?_, fun sign => ?_⟩
  · rw [Term.chars_monomial wellFormed, String.ofList_toList]
  · obtain ⟨key, magnitude⟩ := Term.toTerm_monomial wellFormed (sign * term.sign)
    rw [Term.combination, Term.combination, Sign.scale_single, key, Term.value, magnitude,
      Monomial.toTerm_sign, Term.value, Sign.apply_mul]

/-- A term behind another one is read as it is. -/
theorem sum?_followingTokens
    (sign : Sign)
    (reading : Side.Reading)
    {term : Term}
    (wellFormed : term.WellFormed)
    (rest : List Token) :
    Side.sum? reading ((followingTokens term).map (Equation.turnBy sign) ++ rest) =
      (Side.sum? .afterTerm rest).map fun result =>
        (reading.sign.scale (sign.scale term.combination) + result.1, result.2) := by
  obtain ⟨monomial, monomialWellFormed, text, worth⟩ := exists_monomial wellFormed
  rw [followingTokens, List.map_cons, List.map_singleton, Equation.turnBy_sign,
    Equation.turnBy_literal, text, List.cons_append, List.singleton_append,
    sum?_sign_monomial reading _ monomialWellFormed, worth]

theorem sum?_flatMap_followingTokens
    (sign : Sign)
    {terms : List Term}
    (wellFormed : ∀ term ∈ terms, term.WellFormed) :
    Side.sum? .afterTerm ((terms.flatMap followingTokens).map (Equation.turnBy sign)) =
      some (sign.scale (Combination.ofTerms terms), .afterTerm) := by
  induction terms with
  | nil =>
      rw [List.flatMap_nil, List.map_nil, Side.sum?_nil, Combination.ofTerms_nil, Sign.scale_zero]
  | cons first rest inductionHypothesis =>
      rw [List.flatMap_cons, List.map_append,
        sum?_followingTokens sign _ (wellFormed first List.mem_cons_self),
        inductionHypothesis fun term member => wellFormed term (List.mem_cons_of_mem _ member),
        Option.map_some, Combination.ofTerms_cons, Sign.scale_add]
      rfl

/-- The tokens of terms are read as the terms, if the first of them is a
sign. -/
theorem sum?_termTokens_sign
    (signed : Bool)
    {first : Term}
    (begins : signed = true ∨ first.sign = .minus)
    {rest : List Term}
    (wellFormed : ∀ term ∈ first :: rest, term.WellFormed)
    (sign : Sign)
    (reading : Side.Reading) :
    Side.sum? reading ((termTokens signed (first :: rest)).map (Equation.turnBy sign)) =
      some (reading.sign.scale (sign.scale first.combination) +
        sign.scale (Combination.ofTerms rest), .afterTerm) := by
  rw [termTokens, leadingTokens_of_sign begins, List.map_append,
    sum?_followingTokens sign reading (wellFormed first List.mem_cons_self),
    sum?_flatMap_followingTokens sign fun term member =>
      wellFormed term (List.mem_cons_of_mem _ member), Option.map_some]

/-- The tokens of terms are read as the terms, if the first of them is a
literal and no term stands in front. -/
theorem sum?_termTokens_literal
    {first : Term}
    (positive : first.sign = .plus)
    {rest : List Term}
    (wellFormed : ∀ term ∈ first :: rest, term.WellFormed)
    (sign : Sign)
    {reading : Side.Reading}
    (ready : reading ≠ .afterTerm) :
    Side.sum? reading ((termTokens false (first :: rest)).map (Equation.turnBy sign)) =
      some (reading.sign.scale first.combination + sign.scale (Combination.ofTerms rest),
        .afterTerm) := by
  obtain ⟨monomial, monomialWellFormed, text, worth⟩ :=
    exists_monomial (wellFormed first List.mem_cons_self)
  have firstWorth := worth .plus
  rw [positive, Sign.scale_plus] at firstWorth
  rw [termTokens, leadingTokens_of_literal positive, text, List.map_append, List.map_singleton,
    Equation.turnBy_literal, List.singleton_append]
  refine (Side.sum?_written ready none monomialWellFormed _).trans ?_
  rw [sum?_flatMap_followingTokens sign fun term member =>
    wellFormed term (List.mem_cons_of_mem _ member), Option.map_some]
  exact congrArg
    (fun combination => some (reading.sign.scale combination + _, Side.Reading.afterTerm))
    firstWorth

/-- The tokens of terms are read as the terms where no term stands in front. -/
theorem sum?_termTokens
    {first : Term}
    {rest : List Term}
    (wellFormed : ∀ term ∈ first :: rest, term.WellFormed)
    {reading : Side.Reading}
    (ready : reading ≠ .afterTerm) :
    Side.sum? reading (termTokens false (first :: rest)) =
      some (reading.sign.scale first.combination + Combination.ofTerms rest, .afterTerm) := by
  rw [← Equation.map_turnBy_plus (termTokens false (first :: rest))]
  cases begins : first.sign with
  | plus => exact sum?_termTokens_literal begins wellFormed .plus ready
  | minus => exact sum?_termTokens_sign false (.inr begins) wellFormed .plus reading

/-- The tokens of terms are signs and the unsigned texts of the terms. -/
theorem eq_of_mem_termTokens
    {signed : Bool}
    {terms : List Term}
    {token : Token}
    (member : token ∈ termTokens signed terms) :
    (∃ sign, token = .sign sign) ∨ ∃ term ∈ terms, token = .literal term.unsignedText := by
  have following : ∀ term ∈ terms, token ∈ followingTokens term →
      (∃ sign, token = .sign sign) ∨ ∃ term ∈ terms, token = .literal term.unsignedText := by
    intro term inTerms inTokens
    rcases List.mem_cons.mp inTokens with rfl | inLiteral
    · exact .inl ⟨term.sign, rfl⟩
    · exact .inr ⟨term, inTerms, List.mem_singleton.mp inLiteral⟩
  cases terms with
  | nil => cases member
  | cons first rest =>
      rcases List.mem_append.mp member with inLeading | inRest
      · apply following first List.mem_cons_self
        unfold leadingTokens at inLeading
        split at inLeading
        · exact inLeading
        · exact List.mem_cons_of_mem _ inLeading
      · obtain ⟨term, inTerms, inTokens⟩ := List.mem_flatMap.mp inRest
        exact following term (List.mem_cons_of_mem first inTerms) inTokens

theorem equals_notMem_termTokens
    (signed : Bool)
    (terms : List Term) : .equals ∉ termTokens signed terms := by
  intro member
  rcases eq_of_mem_termTokens member with ⟨_, isSign⟩ | ⟨_, _, isLiteral⟩
  · cases isSign
  · cases isLiteral

theorem subtract_termTokens_plus
    {first : Term}
    (positive : first.sign = .plus)
    (rest : List Term) :
    Equation.subtract (termTokens false (first :: rest)) =
      .sign .minus :: (termTokens false (first :: rest)).map (Equation.turnBy .minus) := by
  rw [termTokens, leadingTokens_of_literal positive]
  rfl

/-- The tokens of terms that begin with a sign are only turned round. -/
theorem subtract_termTokens_sign
    (signed : Bool)
    {first : Term}
    (begins : signed = true ∨ first.sign = .minus)
    (rest : List Term) :
    Equation.subtract (termTokens signed (first :: rest)) =
      (termTokens signed (first :: rest)).map (Equation.turnBy .minus) := by
  rw [termTokens, leadingTokens_of_sign begins]
  rfl

/-- Subtracting the tokens of terms subtracts the terms. -/
theorem sum?_subtract_termTokens
    {first : Term}
    {rest : List Term}
    (wellFormed : ∀ term ∈ first :: rest, term.WellFormed)
    (reading : Side.Reading) :
    Side.sum? reading (Equation.subtract (termTokens false (first :: rest))) =
      some (reading.sign.scale (Sign.minus.scale first.combination) +
        Sign.minus.scale (Combination.ofTerms rest), .afterTerm) := by
  cases begins : first.sign with
  | plus =>
      rw [subtract_termTokens_plus begins, Side.sum?_sign,
        sum?_termTokens_literal begins wellFormed .minus (Side.Reading.signed_ne_afterTerm _),
        ← Sign.scale_mul]
      rfl
  | minus =>
      rw [subtract_termTokens_sign false (.inr begins),
        sum?_termTokens_sign false (.inr begins) wellFormed]

/-- The tokens of terms, the first of them behind its sign, stand for the
terms. -/
theorem standsFor_termTokens
    {terms : List Term}
    (nonempty : terms ≠ [])
    (wellFormed : ∀ term ∈ terms, term.WellFormed) :
    Equation.StandsFor true (termTokens true terms) (Combination.ofTerms terms) := by
  obtain ⟨first, rest, rfl⟩ := List.exists_cons_of_ne_nil nonempty
  refine Equation.standsFor_of_sign ?_ (equals_notMem_termTokens true (first :: rest)) ?_
  · exact ⟨_, _, rfl⟩
  · intro turn reading noSign
    rw [sum?_termTokens_sign true (.inl rfl) wellFormed, noSign, Sign.scale_plus,
      ← Sign.scale_add, Combination.ofTerms_cons]

/-- Behind a term, the tokens of terms can be read only if the first of them
is a `-`. -/
theorem sum?_termTokens_of_afterTerm
    {first : Term}
    {rest : List Term}
    (wellFormed : ∀ term ∈ first :: rest, term.WellFormed)
    (sign : Sign) :
    Side.sum? .afterTerm ((termTokens false (first :: rest)).map (Equation.turnBy sign)) =
      if first.sign = .minus then
        some (sign.scale first.combination + sign.scale (Combination.ofTerms rest), .afterTerm)
      else
        none := by
  cases begins : first.sign with
  | minus =>
      rw [if_pos rfl, sum?_termTokens_sign false (.inr begins) wellFormed]
      rfl
  | plus =>
      obtain ⟨monomial, monomialWellFormed, text, _⟩ :=
        exists_monomial (wellFormed first List.mem_cons_self)
      rw [if_neg nofun, termTokens, leadingTokens_of_literal begins, text, List.map_append,
        List.map_singleton, Equation.turnBy_literal, List.singleton_append]
      exact Side.sum?_written_of_afterTerm none monomialWellFormed _

/-! ## A factor of one -/

theorem combination_multiply_one
    {sign : Option Sign}
    (notMinus : sign.getD .plus = .plus)
    (term : Term) : (multiply sign 1 term).combination = term.combination := by
  rw [combination_multiply, notMinus, one_smul, Sign.scale_plus]

theorem ofTerms_map_multiply_one
    {sign : Option Sign}
    (notMinus : sign.getD .plus = .plus)
    (terms : List Term) :
    Combination.ofTerms (terms.map (multiply sign 1)) = Combination.ofTerms terms := by
  rw [ofTerms_map_multiply, notMinus, one_smul, Sign.scale_plus]

/-- A factor does not turn the sign of a term round. -/
theorem sign_multiply
    {factor : Rat}
    (nonneg : 0 ≤ factor)
    {term : Term}
    (wellFormed : term.WellFormed) : (multiply none factor term).sign = term.sign :=
  if_neg (not_lt.mpr (mul_nonneg wellFormed.magnitude_nonneg nonneg))

end Group
end CanonicalEquation
