import CanonicalEquation.Proofs.Group.Enclosure
import CanonicalEquation.Proofs.Group.Multiplier
import Mathlib.Algebra.Order.BigOperators.GroupWithZero.List

/-!
# What a group is replaced by

The factors around a group are numerals, read from the group outwards.  The
tokens that replace the group are worth its terms, multiplied by all its
factors and by its sign, whether the group stays as it was written or not.
-/

namespace CanonicalEquation
namespace Group

/-- Factors behind a group, each with a `*` in front. -/
def factorTokens (numerals : List Numeral) : List Token :=
  numerals.flatMap fun numeral => [.times, .literal (String.ofList numeral.chars)]

/-- Factors in front of a group, each with a `*` behind. -/
def leadTokens (numerals : List Numeral) : List Token :=
  numerals.flatMap fun numeral => [.literal (String.ofList numeral.chars), .times]

theorem factorTokens_cons
    (numeral : Numeral)
    (rest : List Numeral) :
    factorTokens (numeral :: rest) =
      .times :: .literal (String.ofList numeral.chars) :: factorTokens rest := rfl

/-- From the group outwards, the factors in front of it are as those behind. -/
theorem reverse_leadTokens (numerals : List Numeral) :
    (leadTokens numerals).reverse = factorTokens numerals.reverse := by
  induction numerals with
  | nil => rfl
  | cons first rest inductionHypothesis =>
      have last : factorTokens (first :: rest).reverse =
          factorTokens rest.reverse ++ factorTokens [first] := by
        rw [List.reverse_cons, factorTokens, List.flatMap_append]
        rfl
      rw [leadTokens, List.flatMap_cons, List.reverse_append, ← leadTokens, inductionHypothesis,
        last]
      rfl

theorem plain_leadTokens
    {numerals : List Numeral}
    (wellFormed : ∀ numeral ∈ numerals, numeral.WellFormed) :
    ∀ token ∈ leadTokens numerals, token.hasParenthesis = false := by
  intro token member
  obtain ⟨numeral, inNumerals, inPair⟩ := List.mem_flatMap.mp member
  rcases List.mem_cons.mp inPair with rfl | inLast
  · exact (Side.isWord_numeral (wellFormed numeral inNumerals)).2
  · obtain rfl := List.mem_singleton.mp inLast
    rfl

/-- The factors are the numerals. -/
theorem exists_numeral_of_factorOf
    {token : Token}
    {factor : Rat}
    (read : factorOf token = .ok factor) :
    ∃ numeral : Numeral, numeral.WellFormed ∧
      token = .literal (String.ofList numeral.chars) ∧ factor = numeral.value := by
  cases token with
  | sign sign => cases read
  | equals => cases read
  | times => cases read
  | literal text =>
      simp only [factorOf] at read
      cases found : Decimal.ofText? text with
      | none =>
          rw [found] at read
          cases read
      | some value =>
          rw [found] at read
          cases read
          obtain ⟨numeral, isNumeral, rfl⟩ := Option.map_eq_some_iff.mp found
          obtain ⟨wellFormed, chars⟩ := Numeral.ofChars?_eq_some_iff.mp isNumeral
          exact ⟨numeral, wellFormed, by rw [chars, String.ofList_toList], rfl⟩

theorem factorOf_numeral
    {numeral : Numeral}
    (wellFormed : numeral.WellFormed) :
    factorOf (.literal (String.ofList numeral.chars)) = .ok numeral.value := by
  have read : Numeral.ofChars? numeral.chars = some numeral :=
    Numeral.ofChars?_eq_some_iff.mpr ⟨wellFormed, rfl⟩
  rw [factorOf, Decimal.ofText?, String.toList_ofList, read]
  rfl

/-- The numbers that numerals write. -/
def valuesOf (numerals : List Numeral) : List Rat :=
  numerals.map Numeral.value

theorem isFinite_of_mem_valuesOf
    {numerals : List Numeral}
    {value : Rat}
    (member : value ∈ valuesOf numerals) : Decimal.IsFinite value := by
  obtain ⟨numeral, _, rfl⟩ := List.mem_map.mp member
  exact Decimal.isFinite_numeralValue numeral

theorem ofTokens_factorTokens
    {numerals : List Numeral}
    (wellFormed : ∀ numeral ∈ numerals, numeral.WellFormed)
    {rest : List Token}
    {lead : Lead}
    (read : Lead.ofTokens rest = .ok lead) :
    Lead.ofTokens (factorTokens numerals ++ rest) =
      .ok { lead with factors := valuesOf numerals ++ lead.factors } := by
  induction numerals with
  | nil => exact read
  | cons first others inductionHypothesis =>
      rw [factorTokens_cons]
      have othersRead := inductionHypothesis fun numeral member =>
        wellFormed numeral (List.mem_cons_of_mem _ member)
      exact Lead.ofTokens_factor_eq_ok_iff.mpr ⟨first.value, _,
        factorOf_numeral (wellFormed first List.mem_cons_self), othersRead, rfl⟩

theorem openFrom_factorTokens
    {numerals : List Numeral}
    (wellFormed : ∀ numeral ∈ numerals, numeral.WellFormed)
    (before group : List Token)
    (factors : List Rat)
    (rest : List Token) :
    openFrom (.behind before group factors) (factorTokens numerals ++ rest) =
      openFrom (.behind before group ((valuesOf numerals).reverse ++ factors)) rest := by
  induction numerals generalizing factors with
  | nil => rfl
  | cons first others inductionHypothesis =>
      rw [factorTokens_cons, List.cons_append, List.cons_append, openFrom_behind_times,
        openFrom_multiplying, factorOf_numeral (wellFormed first List.mem_cons_self)]
      refine (inductionHypothesis (fun numeral member =>
        wellFormed numeral (List.mem_cons_of_mem _ member)) _).trans ?_
      rw [valuesOf, valuesOf, List.map_cons, List.reverse_cons, List.append_assoc,
        List.singleton_append]

/-- What the pass makes of a group with all its factors. -/
theorem openFrom_group
    {enclosure : Enclosure}
    (closed : enclosure.Closed)
    {terms : List Term}
    (encloses : enclosedTerms enclosure.tokens = .ok terms)
    {before : List Token}
    {lead : Lead}
    (leadRead : Lead.ofTokens before = .ok lead)
    {numerals : List Numeral}
    (wellFormed : ∀ numeral ∈ numerals, numeral.WellFormed)
    {rest remaining : List Token}
    (noFactor : rest.head? ≠ some .times)
    (restOpens : openFrom (.outside []) rest = .ok remaining) :
    openFrom (.outside before) (enclosure.tokens ++ (factorTokens numerals ++ rest)) =
      .ok (lead.before.reverse ++
        replacement lead.sign (lead.factors ++ (valuesOf numerals).reverse) enclosure.tokens
            terms ++
          remaining) := by
  have finished : finish before enclosure.tokens.reverse (valuesOf numerals).reverse =
      .ok (lead.before.reverse ++ replacement lead.sign
        (lead.factors ++ (valuesOf numerals).reverse) enclosure.tokens terms) := by
    rw [finish_eq_ok_iff, List.reverse_reverse]
    exact ⟨lead, terms, leadRead, encloses, rfl⟩
  rw [Enclosure.openFrom_tokens closed, openFrom_factorTokens wellFormed,
    List.append_nil, openFrom_behind _ _ _ noFactor, finished, restOpens]
  rfl

/-- The terms of a group that something multiplies stand in its place. -/
theorem replacement_of_multiplied
    {sign : Option Sign}
    {factors : List Rat}
    (multiplied : factors ≠ [] ∨ sign = some .minus)
    (group : List Token)
    (terms : List Term) :
    replacement sign factors group terms =
      termTokens sign.isSome (terms.map (multiply sign (product factors))) := by
  rw [replacement, if_neg]
  rcases multiplied with nonempty | rfl
  · simp [nonempty]
  · simp

/-! ## What the replacement is worth -/

theorem product_eq_prod (factors : List Rat) : product factors = factors.prod := rfl

theorem isFinite_product
    {factors : List Rat}
    (finite : ∀ factor ∈ factors, Decimal.IsFinite factor) :
    Decimal.IsFinite (product factors) := by
  induction factors with
  | nil => exact Decimal.IsFinite.one
  | cons first rest inductionHypothesis =>
      exact (finite first List.mem_cons_self).mul
        (inductionHypothesis fun factor member => finite factor (List.mem_cons_of_mem _ member))

theorem nonneg_product
    {factors : List Rat}
    (nonneg : ∀ factor ∈ factors, 0 ≤ factor) : 0 ≤ product factors := by
  rw [product_eq_prod]
  exact List.prod_nonneg nonneg

theorem equals_notMem_replacement
    (sign : Option Sign)
    (factors : List Rat)
    {enclosure : Enclosure}
    (wellFormed : enclosure.WellFormed)
    (terms : List Term) : .equals ∉ replacement sign factors enclosure.tokens terms := by
  unfold replacement
  split
  · rw [List.mem_append, not_or]
    refine ⟨?_, Enclosure.equals_notMem_tokens wellFormed⟩
    cases sign <;> simp
  · exact equals_notMem_termTokens _ _

/-- The groups that begin with a word for the first term, and whose other terms
all have signs that stand alone. -/
structure Regular
    (enclosure : Enclosure)
    (first : Term)
    (terms : List Term) : Prop where
  wellFormed : enclosure.WellFormed
  content : ∃ sign monomial rest, Monomial.WellFormed monomial ∧
    enclosure.inner = .literal (String.ofList (Term.signChars sign ++ monomial.chars)) :: rest ∧
    first = monomial.toTerm (sign.getD .plus) ∧ Following rest terms ∧ Apart rest

namespace Regular

variable {enclosure : Enclosure}
variable {first : Term}
variable {terms : List Term}

theorem encloses
    (regular : Regular enclosure first terms) :
    enclosedTerms enclosure.tokens = .ok (first :: terms) := by
  obtain ⟨sign, monomial, rest, wellFormed, inner, rfl, following, _⟩ := regular.content
  rw [Enclosure.enclosedTerms_eq_ok_iff regular.wellFormed, inner, wordsOf, List.map_cons,
    Token.text_literal, String.toList_ofList]
  exact sequenceOfWords?_word sign wellFormed following

/-- As it was written, such a group is read as its terms.  A sign in front of
it multiplies the first term only. -/
theorem sum?_tokens
    (regular : Regular enclosure first terms)
    (turn : Sign)
    {reading : Side.Reading}
    (ready : reading ≠ .afterTerm) :
    Side.sum? reading (enclosure.tokens.map (Equation.turnBy turn)) =
      some (reading.sign.scale first.combination + turn.scale (Combination.ofTerms terms),
        .afterTerm) := by
  obtain ⟨sign, monomial, rest, wellFormed, inner, rfl, following, apart⟩ := regular.content
  have nonempty : enclosure.inner ≠ [] := by
    rw [inner]
    exact List.cons_ne_nil _ _
  rw [Enclosure.sum?_tokens regular.wellFormed nonempty, inner, List.map_cons,
    Equation.turnBy_literal, Side.sum?_written ready sign wellFormed,
    sum?_following turn following apart, Option.map_some]

theorem wellFormed_terms
    (regular : Regular enclosure first terms) : ∀ term ∈ first :: terms, term.WellFormed := by
  obtain ⟨sign, monomial, rest, wellFormed, inner, rfl, following, apart⟩ := regular.content
  exact List.forall_mem_cons.mpr ⟨Monomial.wellFormed_toTerm _ wellFormed, following.wellFormed⟩

theorem wellFormed_multiplied
    (regular : Regular enclosure first terms)
    (mark : Option Sign)
    {factors : List Rat}
    (finite : ∀ factor ∈ factors, Decimal.IsFinite factor) :
    ∀ term ∈ multiply mark (product factors) first ::
      terms.map (multiply mark (product factors)), term.WellFormed := by
  rw [← List.map_cons]
  intro term member
  obtain ⟨original, inTerms, rfl⟩ := List.mem_map.mp member
  exact wellFormed_multiply mark (isFinite_product finite)
    (regular.wellFormed_terms original inTerms)

/-- What replaces a group behind a sign is worth its terms, multiplied by the
sign and the factors.  A sign still further in front multiplies the first term
only. -/
theorem sum?_replacement_signed
    (regular : Regular enclosure first terms)
    {factors : List Rat}
    (finite : ∀ factor ∈ factors, Decimal.IsFinite factor)
    (mark turn : Sign)
    (reading : Side.Reading) :
    Side.sum? reading
        ((replacement (some mark) factors enclosure.tokens (first :: terms)).map
          (Equation.turnBy turn)) =
      some (reading.sign.scale (turn.scale (mark.scale (product factors • first.combination))) +
        turn.scale (mark.scale (product factors • Combination.ofTerms terms)), .afterTerm) := by
  unfold replacement
  by_cases kept : (factors.isEmpty && some mark != some .minus) = true
  · rw [if_pos kept]
    have none : factors = [] ∧ mark = .plus := by
      cases factors <;> cases mark <;> simp at kept ⊢
    obtain ⟨rfl, rfl⟩ := none
    have ready := Side.Reading.signed_ne_afterTerm (reading.sign * (turn * .plus))
    rw [product_eq_prod, List.prod_nil, one_smul, one_smul, Option.map_some, Option.toList_some,
      List.singleton_append, List.map_cons, Equation.turnBy_sign, Side.sum?_sign,
      regular.sum?_tokens turn ready]
    change some ((reading.sign * (turn * .plus)).scale first.combination + _, _) = _
    rw [Sign.scale_mul, Sign.scale_mul, Sign.scale_plus, Sign.scale_plus]
  · rw [if_neg kept, Option.isSome_some, List.map_cons,
      sum?_termTokens_sign true (.inl rfl) (regular.wellFormed_multiplied _ finite),
      combination_multiply, ofTerms_map_multiply]
    rfl

/-- What replaces a group without a sign in front is worth its terms,
multiplied by the factors. -/
theorem sum?_replacement_unsigned
    (regular : Regular enclosure first terms)
    {factors : List Rat}
    (finite : ∀ factor ∈ factors, Decimal.IsFinite factor)
    {reading : Side.Reading}
    (ready : reading ≠ .afterTerm) :
    Side.sum? reading (replacement none factors enclosure.tokens (first :: terms)) =
      some (reading.sign.scale (product factors • first.combination) +
        product factors • Combination.ofTerms terms, .afterTerm) := by
  unfold replacement
  by_cases kept : (factors.isEmpty && (none : Option Sign) != some .minus) = true
  · rw [if_pos kept]
    have none : factors = [] := by
      cases factors <;> simp at kept ⊢
    subst none
    have worth := regular.sum?_tokens .plus ready
    rw [Equation.map_turnBy_plus] at worth
    rw [product_eq_prod, List.prod_nil, one_smul, one_smul]
    exact worth
  · rw [if_neg kept, Option.isSome_none, List.map_cons]
    have wellFormed := regular.wellFormed_multiplied none finite
    have firstWorth := combination_multiply none (product factors) first
    have restWorth := ofTerms_map_multiply none (product factors) terms
    rw [Option.getD_none, Sign.scale_plus] at firstWorth restWorth
    rw [sum?_termTokens wellFormed ready, firstWorth, restWorth]

/-- Subtracting what replaces a group without a sign in front subtracts all
that it is worth. -/
theorem sum?_subtract_replacement
    (regular : Regular enclosure first terms)
    {factors : List Rat}
    (finite : ∀ factor ∈ factors, Decimal.IsFinite factor)
    {reading : Side.Reading}
    (noSign : reading.sign = .plus) :
    Side.sum? reading
        (Equation.subtract (replacement none factors enclosure.tokens (first :: terms))) =
      some (-(product factors • Combination.ofTerms (first :: terms)), .afterTerm) := by
  have ready := Side.Reading.signed_ne_afterTerm (reading.sign * .minus)
  have total : ∀ combination : Combination,
      reading.sign.scale (Sign.minus.scale combination) +
        Sign.minus.scale (product factors • Combination.ofTerms terms) =
      -(combination + product factors • Combination.ofTerms terms) := by
    intro combination
    rw [noSign, Sign.scale_plus, Sign.scale_minus, Sign.scale_minus, neg_add]
  rw [Combination.ofTerms_cons, smul_add, ← total]
  unfold replacement
  by_cases kept : (factors.isEmpty && (none : Option Sign) != some .minus) = true
  · rw [if_pos kept]
    have none : factors = [] := by
      cases factors <;> simp at kept ⊢
    subst none
    obtain ⟨text, _, rest, _, tokens⟩ := enclosure.exists_literal
    have worth := regular.sum?_tokens .minus ready
    rw [product_eq_prod, List.prod_nil, one_smul, one_smul, ← Sign.scale_mul]
    refine Eq.trans ?_ worth
    rw [tokens]
    exact Side.sum?_sign reading .minus _
  · rw [if_neg kept, Option.isSome_none, List.map_cons]
    have wellFormed := regular.wellFormed_multiplied none finite
    have firstWorth := combination_multiply none (product factors) first
    have restWorth := ofTerms_map_multiply none (product factors) terms
    rw [Option.getD_none, Sign.scale_plus] at firstWorth restWorth
    rw [sum?_subtract_termTokens wellFormed, firstWorth, restWorth]

theorem exists_sign_replacement
    (mark : Sign)
    (factors : List Rat)
    (group : List Token)
    (first : Term)
    (terms : List Term) :
    ∃ sign rest, replacement (some mark) factors group (first :: terms) = .sign sign :: rest := by
  unfold replacement
  split
  · exact ⟨mark, group, rfl⟩
  · exact ⟨_, _, rfl⟩

theorem replacement_ne_nil
    (sign : Option Sign)
    (factors : List Rat)
    (enclosure : Enclosure)
    (first : Term)
    (terms : List Term) :
    replacement sign factors enclosure.tokens (first :: terms) ≠ [] := by
  obtain ⟨text, _, rest, _, tokens⟩ := enclosure.exists_literal
  unfold replacement
  split
  · exact List.append_ne_nil_of_right_ne_nil _ (by simp [tokens])
  · rw [List.map_cons, termTokens]
    apply List.append_ne_nil_of_left_ne_nil
    unfold leadingTokens
    split <;> exact List.cons_ne_nil _ _

/-- What replaces a group without a sign in front stands for its multiplied
terms. -/
theorem standsFor_unsigned
    (regular : Regular enclosure first terms)
    {factors : List Rat}
    (finite : ∀ factor ∈ factors, Decimal.IsFinite factor) :
    Equation.StandsFor false (replacement none factors enclosure.tokens (first :: terms))
      (product factors • Combination.ofTerms (first :: terms)) := by
  refine ⟨replacement_ne_nil _ _ _ _ _, equals_notMem_replacement _ _ regular.wellFormed _, nofun,
    ?_, ?_⟩
  · intro reading noSign ready
    have notAfterTerm : reading ≠ .afterTerm := fun afterTerm => by cases ready afterTerm
    rw [regular.sum?_replacement_unsigned finite notAfterTerm, noSign, Sign.scale_plus,
      Combination.ofTerms_cons, smul_add]
  · intro reading noSign
    exact regular.sum?_subtract_replacement finite noSign

/-- What replaces a group behind a sign stands for its multiplied terms, behind
that sign. -/
theorem standsFor_signed
    (regular : Regular enclosure first terms)
    {factors : List Rat}
    (finite : ∀ factor ∈ factors, Decimal.IsFinite factor)
    (mark : Sign) :
    Equation.StandsFor true (replacement (some mark) factors enclosure.tokens (first :: terms))
      (mark.scale (product factors • Combination.ofTerms (first :: terms))) := by
  apply Equation.standsFor_of_sign (exists_sign_replacement mark factors _ first terms)
    (equals_notMem_replacement _ _ regular.wellFormed _)
  intro turn reading noSign
  rw [regular.sum?_replacement_signed finite mark turn reading, noSign, Sign.scale_plus,
    ← Sign.scale_add, ← Sign.scale_add, ← smul_add, Combination.ofTerms_cons]

end Regular
end Group
end CanonicalEquation
