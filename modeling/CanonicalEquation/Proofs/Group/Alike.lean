import CanonicalEquation.Proofs.Group.Kept

/-!
# Kept groups and groups with a factor of one

An equation with a group that stays as it is written is compared with the same
equation with the group written anew, as it is with a factor of one.  The two
are worth the same exactly under conditions on the tokens in front of the group
and on the group, or if both are worth nothing.
-/

namespace CanonicalEquation
namespace Group

/-- The conditions under which a group that stays as it is written, behind the
tokens `before`, means the same as the terms that it encloses. -/
structure ReadsAlike
    (before : List Token)
    (enclosure : Enclosure) : Prop where
  /-- No sign alone is attached to the opening parenthesis. -/
  notBare : ∀ mark : Sign, enclosure.inner.head? ≠ some (.literal mark.text)
  /-- No sign is attached to a term behind the first one. -/
  apart : Apart enclosure.inner.tail
  /-- Behind a term, the first sign of the group is not a `+` alone and not an
  attached `-`. -/
  behindTerm : (∃ text, before.getLast? = some (.literal text)) →
    enclosure.inner.head? ≠ some (.sign .plus) ∧
      ∀ text, enclosure.inner.head? = some (.literal text) → text.toList.head? ≠ some '-'
  /-- Elsewhere on the right-hand side, no sign alone stands in front of the
  first term, unless that is zero. -/
  onRight : .equals ∈ before → (∀ text, before.getLast? ≠ some (.literal text)) →
    ∀ mark, enclosure.inner.head? = some (.sign mark) →
      ∀ first terms, enclosedTerms enclosure.tokens = .ok (first :: terms) → first.magnitude = 0

/-- How the tokens in front of a group that is kept relate to those that the
pass has settled: the sign that is kept with the group, and the settled tokens
in front of that sign. -/
inductive Behind (before : List Token) : Option Sign → List Token → Prop
  /-- The group begins the equation. -/
  | start (empty : before = []) : Behind before none []
  /-- The group stands behind a `+`. -/
  | signed
      {front : List Token}
      (last : before.getLast? = some (.sign .plus))
      (equals : .equals ∈ before ↔ .equals ∈ front) : Behind before (some .plus) front
  /-- The group begins the right-hand side. -/
  | equals
      (left : List Token)
      (last : before.getLast? = some .equals) : Behind before none (left ++ [.equals])
  /-- The group stands behind a term. -/
  | term
      {text : String}
      (former : List Token)
      {latter : List Token}
      (last : before.getLast? = some (.literal text))
      (isPart : Equation.IsPart latter) : Behind before none (former ++ latter)

section Compare

variable {before : List Token}
variable {enclosure : Enclosure}
variable {first : Term}
variable {terms : List Term}

theorem readsAlike_iff_of_notBehind
    (notBehind : ∀ text, before.getLast? ≠ some (.literal text))
    (encloses : enclosedTerms enclosure.tokens = .ok (first :: terms)) :
    ReadsAlike before enclosure ↔
      (∀ mark : Sign, enclosure.inner.head? ≠ some (.literal mark.text)) ∧
        Apart enclosure.inner.tail ∧
        (.equals ∈ before → ∀ mark, enclosure.inner.head? = some (.sign mark) →
          first.magnitude = 0) := by
  constructor
  · intro alike
    exact ⟨alike.notBare, alike.apart, fun onRight mark begins =>
      alike.onRight onRight notBehind mark begins first terms encloses⟩
  · rintro ⟨notBare, apart, onRight⟩
    refine ⟨notBare, apart, fun ⟨text, last⟩ => absurd last (notBehind text), ?_⟩
    intro inBefore _ mark begins other others found
    rw [encloses] at found
    cases found
    exact onRight inBefore mark begins

theorem readsAlike_iff_of_behind
    {text : String}
    (behind : before.getLast? = some (.literal text)) :
    ReadsAlike before enclosure ↔
      (∀ mark : Sign, enclosure.inner.head? ≠ some (.literal mark.text)) ∧
        Apart enclosure.inner.tail ∧
        enclosure.inner.head? ≠ some (.sign .plus) ∧
        ∀ text, enclosure.inner.head? = some (.literal text) → text.toList.head? ≠ some '-' := by
  constructor
  · intro alike
    exact ⟨alike.notBare, alike.apart, alike.behindTerm ⟨text, behind⟩⟩
  · rintro ⟨notBare, apart, begins⟩
    exact ⟨notBare, apart, fun _ => begins, fun _ notBehind => absurd behind (notBehind text)⟩

/-! ## Reading the two -/

theorem replacement_one
    (sign : Option Sign)
    (group : List Token)
    (terms : List Term) :
    replacement sign [1] group terms = termTokens sign.isSome (terms.map (multiply sign 1)) := by
  have one : product [1] = 1 := mul_one 1
  rw [replacement, one]
  rfl

theorem wellFormed_multiplied_one
    (content : Content enclosure.inner (first :: terms))
    (sign : Option Sign) :
    ∀ term ∈ multiply sign 1 first :: terms.map (multiply sign 1), term.WellFormed := by
  rw [← List.map_cons]
  intro term member
  obtain ⟨original, inTerms, rfl⟩ := List.mem_map.mp member
  exact wellFormed_multiply sign .one (content.wellFormed original inTerms)

/-- A kept group without a sign in front is read as its content, behind what
has been read. -/
theorem sum?_kept_eq_iff
    (wellFormed : enclosure.WellFormed)
    (content : Content enclosure.inner (first :: terms))
    {outer turn : Sign}
    {reading : Side.Reading}
    (ready : reading ≠ .afterTerm)
    (sign : reading.sign = outer * turn) :
    Side.sum? reading (enclosure.tokens.map (Equation.turnBy turn)) =
        some (outer.scale (turn.scale first.combination) +
          turn.scale (Combination.ofTerms terms), .afterTerm) ↔
      (∀ mark : Sign, enclosure.inner.head? ≠ some (.literal mark.text)) ∧
        Apart enclosure.inner.tail ∧
        (turn = .minus → ∀ mark, enclosure.inner.head? = some (.sign mark) →
          first.magnitude = 0) := by
  rw [Enclosure.sum?_tokens wellFormed content.ne_nil]
  exact content.sum?_eq_iff ready sign

theorem sum?_signed
    (wellFormed : enclosure.WellFormed)
    (content : Content enclosure.inner (first :: terms))
    {front : List Token}
    {view : List Token → List Token}
    {reading : Side.Reading}
    (place : Equation.Place front view reading) :
    ∃ result,
      Side.sum? reading (view (replacement (some .plus) [1] enclosure.tokens (first :: terms))) =
          some result ∧
        (Side.sum? reading (view (replacement (some .plus) [] enclosure.tokens (first :: terms))) =
            some result ↔
          (∀ mark : Sign, enclosure.inner.head? ≠ some (.literal mark.text)) ∧
            Apart enclosure.inner.tail ∧
            (.equals ∈ front → ∀ mark, enclosure.inner.head? = some (.sign mark) →
              first.magnitude = 0)) := by
  obtain ⟨turn, inFront, viewSign⟩ := place.view_sign
  have kept : replacement (some .plus) [] enclosure.tokens (first :: terms) =
      .sign .plus :: enclosure.tokens := rfl
  have rewritten : replacement (some .plus) [1] enclosure.tokens (first :: terms) =
      .sign (multiply (some .plus) 1 first).sign ::
        .literal (multiply (some .plus) 1 first).unsignedText ::
          (terms.map (multiply (some .plus) 1)).flatMap followingTokens := replacement_one _ _ _
  have rewrittenSum : Side.sum? reading
      (view (replacement (some .plus) [1] enclosure.tokens (first :: terms))) =
        some (reading.sign.scale (turn.scale first.combination) +
          turn.scale (Combination.ofTerms terms), .afterTerm) := by
    have worth := sum?_termTokens_sign true (.inl rfl)
      (wellFormed_multiplied_one content (some .plus)) turn reading
    rw [combination_multiply_one rfl, ofTerms_map_multiply_one rfl] at worth
    rw [rewritten, viewSign]
    exact worth
  refine ⟨_, rewrittenSum, ?_⟩
  rw [kept, viewSign, List.map_cons, Equation.turnBy_sign, Side.sum?_sign,
    sum?_kept_eq_iff wellFormed content (Side.Reading.signed_ne_afterTerm _)
      (congrArg (reading.sign * ·) (Sign.mul_plus turn)), inFront]

theorem sum?_start
    (wellFormed : enclosure.WellFormed)
    (content : Content enclosure.inner (first :: terms)) :
    ∃ result,
      Side.sum? .start (replacement none [1] enclosure.tokens (first :: terms)) = some result ∧
        (Side.sum? .start (replacement none [] enclosure.tokens (first :: terms)) = some result ↔
          (∀ mark : Sign, enclosure.inner.head? ≠ some (.literal mark.text)) ∧
            Apart enclosure.inner.tail) := by
  have rewrittenSum := sum?_termTokens (wellFormed_multiplied_one content none)
    Side.Reading.start_ne_afterTerm
  rw [combination_multiply_one rfl, ofTerms_map_multiply_one rfl, ← List.map_cons] at rewrittenSum
  have kept := @sum?_kept_eq_iff enclosure first terms wellFormed content .plus .plus .start
    Side.Reading.start_ne_afterTerm rfl
  rw [Equation.map_turnBy_plus] at kept
  rw [replacement_one]
  refine ⟨_, rewrittenSum, ?_⟩
  refine Iff.trans kept ?_
  constructor
  · exact fun conditions => ⟨conditions.1, conditions.2.1⟩
  · exact fun conditions => ⟨conditions.1, conditions.2, nofun⟩

theorem sum?_equals
    (wellFormed : enclosure.WellFormed)
    (content : Content enclosure.inner (first :: terms))
    (reading : Side.Reading) :
    ∃ result,
      Side.sum? reading
          (Equation.subtract (replacement none [1] enclosure.tokens (first :: terms))) =
            some result ∧
        (Side.sum? reading
            (Equation.subtract (replacement none [] enclosure.tokens (first :: terms))) =
              some result ↔
          (∀ mark : Sign, enclosure.inner.head? ≠ some (.literal mark.text)) ∧
            Apart enclosure.inner.tail ∧
            ∀ mark, enclosure.inner.head? = some (.sign mark) → first.magnitude = 0) := by
  have rewrittenSum := sum?_subtract_termTokens (wellFormed_multiplied_one content none) reading
  rw [combination_multiply_one rfl, ofTerms_map_multiply_one rfl, ← List.map_cons] at rewrittenSum
  rw [replacement_one]
  refine ⟨_, rewrittenSum, ?_⟩
  have subtracted : Equation.subtract (replacement none [] enclosure.tokens (first :: terms)) =
      .sign .minus :: enclosure.tokens.map (Equation.turnBy .minus) := by
    obtain ⟨text, _, rest, _, tokens⟩ := enclosure.exists_literal
    change Equation.subtract enclosure.tokens = _
    rw [tokens]
    rfl
  rw [subtracted, Side.sum?_sign, sum?_kept_eq_iff wellFormed content
    (Side.Reading.signed_ne_afterTerm _) rfl]
  simp only [true_implies]

/-- Behind a term, a group written anew is read only if it begins with a `-`. -/
theorem sum?_behindTerm
    (content : Content enclosure.inner (first :: terms))
    (turn : Sign) :
    Side.sum? .afterTerm
        ((replacement none [1] enclosure.tokens (first :: terms)).map (Equation.turnBy turn)) =
      if first.sign = .minus then
        some (turn.scale first.combination + turn.scale (Combination.ofTerms terms), .afterTerm)
      else
        none := by
  have worth := sum?_termTokens_of_afterTerm (wellFormed_multiplied_one content none) turn
  rw [sign_multiply zero_le_one (content.wellFormed first List.mem_cons_self),
    combination_multiply_one rfl, ofTerms_map_multiply_one rfl, ← List.map_cons] at worth
  rw [replacement_one]
  exact worth

/-- An equation with a kept group is worth the same as with the group written
anew exactly when the group is read alike, or the equation is worth nothing
with either. -/
theorem worth?_replacement_iff
    {sign : Option Sign}
    {front : List Token}
    (behind : Behind before sign front)
    (wellFormed : enclosure.WellFormed)
    (encloses : enclosedTerms enclosure.tokens = .ok (first :: terms))
    (rest : List Token) :
    Equation.worth? (front ++ (replacement sign [] enclosure.tokens (first :: terms) ++ rest)) =
        Equation.worth?
          (front ++ (replacement sign [1] enclosure.tokens (first :: terms) ++ rest)) ↔
      Equation.worth?
            (front ++ (replacement sign [] enclosure.tokens (first :: terms) ++ rest)) = none ∧
          Equation.worth?
            (front ++ (replacement sign [1] enclosure.tokens (first :: terms) ++ rest)) = none ∨
        ReadsAlike before enclosure := by
  have content := Enclosure.content_of_enclosedTerms wellFormed encloses
  have keptPart := isPart_replacement wellFormed content sign
    (List.forall_mem_nil _)
  have rewrittenPart := isPart_replacement wellFormed content sign
    (List.forall_mem_singleton.mpr Decimal.IsFinite.one)
  cases behind with
  | start empty =>
      apply Equation.worth?_eq_iff_of_some keptPart rewrittenPart
      intro view reading place
      obtain ⟨rfl, rfl⟩ := place.of_nil
      obtain ⟨result, rewrittenSum, keptSum⟩ := sum?_start wellFormed content
      refine ⟨result, rewrittenSum, keptSum.trans ?_⟩
      rw [readsAlike_iff_of_notBehind (by simp [empty]) encloses]
      simp [empty]
  | signed last equals =>
      apply Equation.worth?_eq_iff_of_some keptPart rewrittenPart
      intro view reading place
      obtain ⟨result, rewrittenSum, keptSum⟩ := sum?_signed wellFormed content place
      refine ⟨result, rewrittenSum, keptSum.trans ?_⟩
      rw [readsAlike_iff_of_notBehind (by simp [last]) encloses, equals]
  | equals left last =>
      apply Equation.worth?_eq_iff_of_some keptPart rewrittenPart
      intro view reading place
      obtain rfl := place.of_equals
      obtain ⟨result, rewrittenSum, keptSum⟩ := sum?_equals wellFormed content reading
      refine ⟨result, rewrittenSum, keptSum.trans ?_⟩
      rw [readsAlike_iff_of_notBehind (by simp [last]) encloses]
      simp [List.mem_of_getLast? last]
  | term former last isPart =>
      apply Equation.worth?_eq_iff keptPart rewrittenPart
      · intro alike view reading place
        obtain ⟨notBare, apart, notPlus, notAttached⟩ := (readsAlike_iff_of_behind last).mp alike
        obtain ⟨rfl, turn, rfl⟩ := place.of_append isPart
        rw [sum?_behindTerm content]
        exact (Enclosure.sum?_tokens wellFormed content.ne_nil turn .afterTerm).trans
          (content.sum?_of_afterTerm notBare apart notPlus notAttached turn)
      · intro unlike view reading place result keptReads rewrittenReads
        rw [readsAlike_iff_of_behind last] at unlike
        obtain ⟨rfl, turn, rfl⟩ := place.of_append isPart
        have innerReads :=
          (Enclosure.sum?_tokens wellFormed content.ne_nil turn .afterTerm).symm.trans keptReads
        rw [sum?_behindTerm content, content.sign_of_afterTerm unlike innerReads] at rewrittenReads
        cases rewrittenReads

end Compare

end Group
end CanonicalEquation
