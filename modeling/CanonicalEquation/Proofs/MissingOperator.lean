import CanonicalEquation.Proofs.Acceptance
import CanonicalEquation.Proofs.Group.Approach

/-!
# Groups behind a literal

Between a literal and the group that follows it, or the factors of the group,
an operator is missing.  Such an equation has no canonical form, unless the
group is replaced by tokens that begin with a sign.  Then it has one exactly
when it has one with a `+` put in.
-/

namespace CanonicalEquation
namespace Group

/-- Whether a group without a sign in front is replaced by tokens that begin with
one.  A group that nothing multiplies does so if a sign stands alone behind its
opening parenthesis, any other one if its first term has a `-`. -/
def BringsSign
    (factors : List String)
    (rest : List Token)
    (enclosure : Enclosure) : Prop :=
  if factors = [] ∧ rest.head? ≠ some .times then
    ∃ sign, enclosure.inner.head? = some (.sign sign)
  else
    ∃ first others, enclosedTerms enclosure.tokens = .ok (first :: others) ∧ first.sign = .minus

/-- Whether a group brings a sign is seen from its factors and its first term. -/
theorem bringsSign_iff
    {enclosure : Enclosure}
    {first : Term}
    {terms : List Term}
    (encloses : enclosedTerms enclosure.tokens = .ok (first :: terms))
    {factors : List String}
    {rest : List Token}
    {values : List Rat}
    (noValues : values = [] ↔ factors = [] ∧ rest.head? ≠ some .times) :
    BringsSign factors rest enclosure ↔
      if values = [] then ∃ sign, enclosure.inner.head? = some (.sign sign)
        else first.sign = .minus := by
  by_cases kept : values = []
  · rw [BringsSign, if_pos (noValues.mp kept), if_pos kept]
  · rw [BringsSign, if_neg (mt noValues.mpr kept), if_neg kept, encloses]
    constructor
    · rintro ⟨leading, others, equal, minus⟩
      cases equal
      exact minus
    · intro minus
      exact ⟨first, terms, rfl, minus⟩

/-! ## What replaces a group behind a term -/

/-- A group that stays as it is can be read behind a term if it begins with a
sign that stands alone, and can be read behind a sign. -/
theorem Content.exists_sum?_iff
    {inner : List Token}
    {terms : List Term}
    (content : Content inner terms)
    (turn mark : Sign) :
    (∃ result, Side.sum? .afterTerm (inner.map (Equation.turnBy turn)) = some result) ↔
      (∃ sign, inner.head? = some (.sign sign)) ∧
        ∃ result, Side.sum? (.signed mark) (inner.map (Equation.turnBy turn)) = some result := by
  cases content with
  | word sign wellFormed following =>
      rw [List.map_cons, Equation.turnBy_literal, Side.sum?_written_of_afterTerm sign wellFormed]
      exact iff_of_false nofun fun both => nomatch both.1
  | bare sign wellFormed following =>
      rw [List.map_cons, Equation.turnBy_literal, Side.sum?_bareSign]
      exact iff_of_false nofun fun both => nomatch both.1
  | apart sign wellFormed following =>
      rw [List.map_cons, List.map_cons, Equation.turnBy_sign, Equation.turnBy_literal,
        sum?_sign_monomial _ _ wellFormed, sum?_sign_monomial _ _ wellFormed,
        and_iff_right ⟨sign, rfl⟩]
      simp only [Option.map_eq_some_iff]
      constructor
      · rintro ⟨_, result, reads, _⟩
        exact ⟨_, result, reads, rfl⟩
      · rintro ⟨_, result, reads, _⟩
        exact ⟨_, result, reads, rfl⟩

section Replacements

variable {enclosure : Enclosure}
variable {first : Term}
variable {terms : List Term}
variable {factors : List Rat}

/-- What replaces a group can be read behind a term exactly when it begins with
a sign, and can be read with a `+` in front of the group. -/
theorem exists_sum?_replacement_iff
    (wellFormed : enclosure.WellFormed)
    (content : Content enclosure.inner (first :: terms))
    (areFactors : ∀ factor ∈ factors, IsFactor factor)
    (turn : Sign) :
    (∃ result, Side.sum? .afterTerm
      ((replacement none factors enclosure.tokens (first :: terms)).map
        (Equation.turnBy turn)) = some result) ↔
      (if factors = [] then ∃ sign, enclosure.inner.head? = some (.sign sign)
        else first.sign = .minus) ∧
      ∃ result, Side.sum? .afterTerm
        ((replacement (some .plus) factors enclosure.tokens (first :: terms)).map
          (Equation.turnBy turn)) = some result := by
  by_cases kept : factors = []
  · subst kept
    have withoutSign : replacement none [] enclosure.tokens (first :: terms) =
        enclosure.tokens := rfl
    have withSign : replacement (some .plus) [] enclosure.tokens (first :: terms) =
        .sign .plus :: enclosure.tokens := rfl
    rw [if_pos rfl, withoutSign, withSign, List.map_cons, Equation.turnBy_sign, Side.sum?_sign,
      Enclosure.sum?_tokens wellFormed content.ne_nil,
      Enclosure.sum?_tokens wellFormed content.ne_nil]
    exact content.exists_sum?_iff turn _
  · have nonneg : 0 ≤ product factors :=
      nonneg_product fun factor member => (areFactors factor member).nonneg
    have finite : Decimal.IsFinite (product factors) :=
      isFinite_product fun factor member => (areFactors factor member).isFinite
    have multiplied : ∀ sign, ∀ term ∈
        multiply sign (product factors) first :: terms.map (multiply sign (product factors)),
        term.WellFormed := fun sign =>
      List.forall_mem_map.mpr fun term member =>
        wellFormed_multiply sign finite (content.wellFormed term member)
    have sameSign := sign_multiply nonneg (content.wellFormed first List.mem_cons_self)
    rw [if_neg kept, replacement_of_multiplied (.inl kept), replacement_of_multiplied (.inl kept),
      List.map_cons, List.map_cons, Option.isSome_none, Option.isSome_some,
      sum?_termTokens_of_afterTerm (multiplied none), sameSign,
      sum?_termTokens_sign true (.inl rfl) (multiplied (some .plus)), and_iff_left ⟨_, rfl⟩]
    constructor
    · rintro ⟨_, reads⟩
      by_contra notMinus
      rw [if_neg notMinus] at reads
      cases reads
    · intro minus
      exact ⟨_, if_pos minus⟩

end Replacements

/-- Behind a literal, an equation with a group is worth something exactly when the
group brings a sign, and the equation is worth something with a `+` in front of
the group. -/
theorem exists_textWorth?_iff
    {first second : String}
    {before rest : List Token}
    {text : String}
    (last : before.getLast? = some (.literal text))
    {factors : List String}
    {enclosure : Enclosure}
    (wellFormed : enclosure.WellFormed)
    (firstTokens :
      Token.scan first = before ++ (approach none factors ++ (enclosure.tokens ++ rest)))
    (secondTokens :
      Token.scan second = before ++ (approach (some .plus) factors ++ (enclosure.tokens ++ rest))) :
    (∃ worth, textWorth? first = some worth) ↔
      BringsSign factors rest enclosure ∧ ∃ worth, textWorth? second = some worth := by
  have areWords : ∀ token ∈ before, token.IsWord := fun token member =>
    Token.isWord_of_mem_scan (firstTokens ▸ List.mem_append_left _ member)
  rcases openAll_behind_literal areWords last factors wellFormed rest with
    fails | ⟨former, latter, values, terms, remaining, isPart, encloses, areFactors, noValues,
      opens⟩
  · rw [textWorth?_eq_none firstTokens (fails none),
      textWorth?_eq_none secondTokens (fails (some .plus))]
    exact iff_of_false nofun fun both => nomatch both.2
  · -- The two equations differ only in what replaces the group, which stands in one place.
    have content := Enclosure.content_of_enclosedTerms wellFormed encloses
    obtain ⟨leading, others, rfl⟩ := content.exists_cons
    have finite : ∀ value ∈ values, Decimal.IsFinite value := fun value member =>
      (areFactors value member).isFinite
    have isPartOf := fun sign => isPart_replacement wellFormed content sign finite
    rw [textWorth?_of_openAll firstTokens (opens none),
      textWorth?_of_openAll secondTokens (opens (some .plus))]
    rcases Equation.dependsOnPart (former ++ latter) remaining with
      nothing | ⟨view, reading, worth, after, place, isWorth⟩
    · rw [nothing _ (isPartOf none), nothing _ (isPartOf (some .plus))]
      exact iff_of_false nofun fun both => nomatch both.2
    · have ends := fun sign => place.endsTerm (isPartOf sign)
      rw [isWorth _ (isPartOf none), isWorth _ (isPartOf (some .plus)),
        Side.exists_around?_iff _ _ (ends none), Side.exists_around?_iff _ _ (ends (some .plus))]
      obtain ⟨rfl, turn, rfl⟩ := place.of_append isPart
      rw [exists_sum?_replacement_iff wellFormed content areFactors turn,
        bringsSign_iff encloses noValues, and_assoc]

end Group

/-- A group directly behind a literal, or behind one and factors, has no operator
in front.  Such an equation has a canonical form exactly when the group brings a
sign, and the equation has a canonical form with a `+` put in. -/
theorem isAccepted_behind_literal_iff
    {first second : String}
    {before after : List Token}
    {text opening : String}
    {factors : List String}
    (firstTokens : Token.scan first =
      before ++ .literal text :: (Group.approach none factors ++ .literal opening :: after))
    (secondTokens : Token.scan second =
      before ++ .literal text :: (Group.approach (some .plus) factors ++ .literal opening :: after))
    (opens : opening.toList.head? = some '(')
    (order : PowerOrder) :
    IsAccepted order first ↔
      (∃ (enclosure : Group.Enclosure) (rest : List Token), enclosure.WellFormed ∧
        .literal opening :: after = enclosure.tokens ++ rest ∧
        Group.BringsSign factors rest enclosure) ∧ IsAccepted order second := by
  obtain ⟨inner, chars⟩ := List.head?_eq_some_iff.mp opens
  rw [List.append_cons] at firstTokens secondTokens
  unfold IsAccepted
  rw [exists_canonicalForm_iff, exists_canonicalForm_iff]
  by_cases written : ∃ (enclosure : Group.Enclosure) (rest : List Token),
      enclosure.WellFormed ∧ .literal opening :: after = enclosure.tokens ++ rest
  · have behind : ∀ {enclosure : Group.Enclosure} {rest : List Token}, enclosure.WellFormed →
        .literal opening :: after = enclosure.tokens ++ rest →
          ((∃ worth, textWorth? first = some worth) ↔
            Group.BringsSign factors rest enclosure ∧
              ∃ worth, textWorth? second = some worth) := by
      intro enclosure rest wellFormed tokens
      rw [tokens] at firstTokens secondTokens
      exact Group.exists_textWorth?_iff List.getLast?_concat wellFormed firstTokens secondTokens
    constructor
    · intro isWorth
      obtain ⟨enclosure, rest, wellFormed, tokens⟩ := written
      obtain ⟨brings, otherWorth⟩ := (behind wellFormed tokens).mp isWorth
      exact ⟨⟨enclosure, rest, wellFormed, tokens, brings⟩, otherWorth⟩
    · rintro ⟨⟨enclosure, rest, wellFormed, tokens, brings⟩, otherWorth⟩
      exact (behind wellFormed tokens).mpr ⟨brings, otherWorth⟩
  · have areWords : ∀ token ∈ (before ++ [.literal text]) ++ .literal opening :: after,
        token.IsWord := by
      intro token member
      apply Token.isWord_of_mem_scan
      rw [firstTokens]
      simp only [List.mem_append] at member ⊢
      exact member.imp id .inr
    have fails := Group.toOption_openAll_of_not_written areWords chars written
    rw [textWorth?_eq_none firstTokens (fails none factors),
      textWorth?_eq_none secondTokens (fails (some .plus) factors)]
    exact iff_of_false nofun fun both => nomatch both.2

/-- In `x (-y) * 2 = 0` no operator stands between the `x` and the group, and yet
the equation has a canonical form. -/
theorem isAccepted_without_operator :
    Token.scan "x (-y) * 2 = 0" =
        [] ++ .literal "x" :: (Group.approach none [] ++
          .literal "(-y)" :: [.times, .literal "2", .equals, .literal "0"]) ∧
      Token.scan "x + (-y) * 2 = 0" =
        [] ++ .literal "x" :: (Group.approach (some .plus) [] ++
          .literal "(-y)" :: [.times, .literal "2", .equals, .literal "0"]) ∧
      canonicalForm .textual "x (-y) * 2 = 0" = .ok "x - 2y = 0" ∧
      IsAccepted .textual "x (-y) * 2 = 0" ∧
      canonicalForm .textual "x (-y) = 0" = .error (.misplacedToken "(-y)" 1) := by
  have firstTokens : Token.scan "x (-y) * 2 = 0" =
      [] ++ .literal "x" :: (Group.approach none [] ++
        .literal "(-y)" :: [.times, .literal "2", .equals, .literal "0"]) := by rfl
  have secondTokens : Token.scan "x + (-y) * 2 = 0" =
      [] ++ .literal "x" :: (Group.approach (some .plus) [] ++
        .literal "(-y)" :: [.times, .literal "2", .equals, .literal "0"]) := by rfl
  have wellFormed : (Group.Enclosure.single ['-', 'y']).WellFormed :=
    (Group.isPiece_nil.cons (by decide) rfl).cons (by decide) rfl
  refine ⟨firstTokens, secondTokens, by decide +kernel, ?_, by decide +kernel⟩
  rw [isAccepted_behind_literal_iff firstTokens secondTokens (by decide) .textual]
  have brings : Group.BringsSign [] [.times, .literal "2", .equals, .literal "0"]
      (.single ['-', 'y']) := by
    rw [Group.BringsSign, if_neg (by simp)]
    exact ⟨⟨.minus, none, ⟨"y", ""⟩⟩, [], by rfl, rfl⟩
  exact ⟨⟨_, _, wellFormed, by rfl, brings⟩, "x - 2y = 0", by decide +kernel⟩

end CanonicalEquation
