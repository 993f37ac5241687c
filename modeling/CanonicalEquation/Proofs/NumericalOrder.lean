import CanonicalEquation.Proofs.Reordering
import CanonicalEquation.Proofs.Term.Ties

/-!
# Powers compared as numbers

Like terms have the same power as a text, but powers are compared as numbers, so
`x^2` and `x^02` are kept apart and yet compare equal.  The canonical form with
powers compared as numbers is therefore unique only up to the order of such
terms, which is the order in which they first appear.
-/

namespace CanonicalEquation

/-- The canonical terms are the sorted terms of the summed equation. -/
theorem canonicalTerms_of_summedEquation
    {text : String}
    {summed : SummedEquation}
    (isSummed : summedEquation text = .ok summed)
    (order : PowerOrder) : canonicalTerms order text = .ok (order.sort summed.terms) := by
  obtain ⟨opened, opens, isSummed⟩ := bind_eq_ok_iff.mp isSummed
  obtain ⟨equation, cut, isSummed⟩ := bind_eq_ok_iff.mp isSummed
  refine bind_eq_ok_iff.mpr ⟨opened, opens, bind_eq_ok_iff.mpr ⟨equation, cut, ?_⟩⟩
  exact bind_eq_ok_iff.mpr ⟨summed, isSummed, rfl⟩

/-- Canonical terms are written differently if they differ. -/
theorem render_inj_of_isCanonical
    {order : PowerOrder}
    {first second : List Term}
    (firstCanonical : IsCanonical order first)
    (secondCanonical : IsCanonical order second) :
    Equation.render first Equation.zeroTail = Equation.render second Equation.zeroTail ↔
      first = second := by
  refine ⟨fun sameText => ?_, fun equal => by rw [equal]⟩
  have readBack := canonicalTerms_render firstCanonical
  rw [sameText, canonicalTerms_render secondCanonical] at readBack
  exact (Except.ok.inj readBack).symm

/-- The canonical forms of two equations are the same exactly when their summed
terms are sorted alike. -/
theorem canonicalForm_eq_iff_sort_eq
    {first second : String}
    {firstSummed secondSummed : SummedEquation}
    (firstIsSummed : summedEquation first = .ok firstSummed)
    (secondIsSummed : summedEquation second = .ok secondSummed)
    (order : PowerOrder) :
    canonicalForm order first = canonicalForm order second ↔
      order.sort firstSummed.terms = order.sort secondSummed.terms := by
  have firstTerms := canonicalTerms_of_summedEquation firstIsSummed order
  have secondTerms := canonicalTerms_of_summedEquation secondIsSummed order
  rw [canonicalForm_eq_ok_iff.mpr ⟨_, firstTerms, rfl⟩,
    canonicalForm_eq_ok_iff.mpr ⟨_, secondTerms, rfl⟩, Except.ok.injEq]
  exact render_inj_of_isCanonical (isCanonical_of_canonicalTerms firstTerms)
    (isCanonical_of_canonicalTerms secondTerms)

/-- An equation that is worth something has summed terms. -/
theorem exists_summedEquation
    {text : String}
    {worth : Combination}
    (isWorth : textWorth? text = some worth) :
    ∃ summed, summedEquation text = .ok summed := by
  obtain ⟨canonical, found⟩ := exists_canonicalForm_iff.mpr ⟨worth, isWorth⟩
  rw [canonicalForm_eq_map .numerical] at found
  cases summed : summedEquation text with
  | error error =>
      rw [summed] at found
      cases found
  | ok equation => exact ⟨equation, rfl⟩

/-- Equations that are worth the same have the same summed terms, up to their
order. -/
theorem perm_of_textWorth?_eq
    {first second : String}
    {firstSummed secondSummed : SummedEquation}
    (firstIsSummed : summedEquation first = .ok firstSummed)
    (secondIsSummed : summedEquation second = .ok secondSummed)
    (sameWorth : textWorth? first = textWorth? second) :
    firstSummed.terms.Perm secondSummed.terms := by
  have sameTerms := (@sameTerms_iff .numerical _ _).mpr sameWorth
  rw [canonicalTerms_of_summedEquation firstIsSummed,
    canonicalTerms_of_summedEquation secondIsSummed] at sameTerms
  have sorted := PowerOrder.numerical.sort_perm firstSummed.terms
  exact sorted.symm.trans (sameTerms.trans (PowerOrder.numerical.sort_perm secondSummed.terms))

/-- With powers compared as numbers, two terms compare equal exactly when their
letters are the same and their exponents differ at most in zeros in front.  Two
lists of the same terms are sorted alike, and two equations that are worth the
same have the same canonical form, exactly when the terms that tie so stand in
the same order. -/
theorem numericalOrder_unique_up_to_ties :
    (∀ first second : Term, first.key.HasWrittenPower → second.key.HasWrittenPower →
      (PowerOrder.numerical.orderingOfTerms first second = .eq ↔
        first.key.Ties second.key)) ∧
    (∀ first second : List Term, (∀ term ∈ first, term.key.HasWrittenPower) →
      (first.map Term.key).Nodup → first.Perm second →
      (PowerOrder.numerical.sort first = PowerOrder.numerical.sort second ↔
        Term.TiesInSameOrder first second)) ∧
    ∀ (first second : String) (worth : Combination),
      textWorth? first = some worth → textWorth? second = some worth →
      ∃ firstSummed secondSummed, summedEquation first = .ok firstSummed ∧
        summedEquation second = .ok secondSummed ∧
        (canonicalForm .numerical first = canonicalForm .numerical second ↔
          Term.TiesInSameOrder firstSummed.terms secondSummed.terms) := by
  refine ⟨fun first second => PowerOrder.orderingOfTerms_numerical_eq_iff, ?_, ?_⟩
  · intro first second written distinct permuted
    exact PowerOrder.sort_numerical_eq_iff written permuted distinct
  · intro first second worth firstIsWorth secondIsWorth
    obtain ⟨firstSummed, firstIsSummed⟩ := exists_summedEquation firstIsWorth
    obtain ⟨secondSummed, secondIsSummed⟩ := exists_summedEquation secondIsWorth
    refine ⟨firstSummed, secondSummed, firstIsSummed, secondIsSummed, ?_⟩
    have permuted := perm_of_textWorth?_eq firstIsSummed secondIsSummed
      (firstIsWorth.trans secondIsWorth.symm)
    have sorted := PowerOrder.numerical.sort_perm firstSummed.terms
    have canonical := isCanonical_of_canonicalTerms
      (canonicalTerms_of_summedEquation firstIsSummed .numerical)
    rw [canonicalForm_eq_iff_sort_eq firstIsSummed secondIsSummed]
    apply PowerOrder.sort_numerical_eq_iff _ permuted
    · exact (sorted.map Term.key).nodup_iff.mp canonical.distinct
    · intro term member
      exact (canonical.wellFormed term (sorted.mem_iff.mpr member)).key_wellFormed.hasWrittenPower

theorem numericalOrder_unique_up_to_ties_squares :
    let square : Term := ⟨.plus, none, ⟨"x", "^2"⟩⟩
    let padded : Term := ⟨.minus, some 3, ⟨"x", "^02"⟩⟩
    let constant : Term := .constant .plus 5
    let worth := Combination.ofTerms [square, padded, constant]
    (square.key.HasWrittenPower ∧ padded.key.HasWrittenPower ∧
      (PowerOrder.numerical.orderingOfTerms square padded = .eq ↔ square.key.Ties padded.key)) ∧
    ((∀ term ∈ [constant, square, padded], term.key.HasWrittenPower) ∧
      ([constant, square, padded].map Term.key).Nodup ∧
      [constant, square, padded].Perm [square, padded, constant] ∧
      (PowerOrder.numerical.sort [constant, square, padded] =
          PowerOrder.numerical.sort [square, padded, constant] ↔
        Term.TiesInSameOrder [constant, square, padded] [square, padded, constant])) ∧
    textWorth? "x^2 - 3x^02 + 5 = 0" = some worth ∧ textWorth? "5 = 3x^02 - x^2" = some worth ∧
      ∃ firstSummed secondSummed, summedEquation "x^2 - 3x^02 + 5 = 0" = .ok firstSummed ∧
        summedEquation "5 = 3x^02 - x^2" = .ok secondSummed ∧
        (canonicalForm .numerical "x^2 - 3x^02 + 5 = 0" =
            canonicalForm .numerical "5 = 3x^02 - x^2" ↔
          Term.TiesInSameOrder firstSummed.terms secondSummed.terms) := by
  intro square padded constant worth
  have squareWritten : square.key.HasWrittenPower := ⟨['2'], List.all_eq_true.mp rfl, rfl⟩
  have paddedWritten : padded.key.HasWrittenPower := ⟨['0', '2'], List.all_eq_true.mp rfl, rfl⟩
  have constantWritten : constant.key.HasWrittenPower := ⟨[], List.forall_mem_nil _, rfl⟩
  have written : ∀ term ∈ [constant, square, padded], term.key.HasWrittenPower := by
    simp [squareWritten, paddedWritten, constantWritten]
  have distinct : ([constant, square, padded].map Term.key).Nodup := by decide
  have permuted : [constant, square, padded].Perm [square, padded, constant] := by decide
  have firstIsWorth : textWorth? "x^2 - 3x^02 + 5 = 0" = some worth :=
    @textWorth?_of_canonicalTerms .numerical _ _ (by decide +kernel)
  have secondIsWorth : textWorth? "5 = 3x^02 - x^2" = some worth := by
    rw [@textWorth?_of_canonicalTerms .numerical _ [padded, square, constant] (by decide +kernel)]
    exact congrArg some (Combination.ofTerms_perm (by decide))
  obtain ⟨equal, sorted, form⟩ := numericalOrder_unique_up_to_ties
  exact ⟨⟨squareWritten, paddedWritten, equal _ _ squareWritten paddedWritten⟩,
    ⟨written, distinct, permuted, sorted _ _ written distinct permuted⟩,
    firstIsWorth, secondIsWorth, form _ _ _ firstIsWorth secondIsWorth⟩

/-- The different terms `x^2` and `x^02` compare equal, and the order in which
they stand is kept. -/
theorem numericalOrder_not_unique :
    let square : Term := ⟨.plus, none, ⟨"x", "^2"⟩⟩
    let padded : Term := ⟨.plus, none, ⟨"x", "^02"⟩⟩
    (square.key.HasWrittenPower ∧ padded.key.HasWrittenPower ∧ square.key ≠ padded.key ∧
      PowerOrder.numerical.orderingOfTerms square padded = .eq) ∧
    ([square, padded].Perm [padded, square] ∧
      PowerOrder.numerical.sort [square, padded] ≠ PowerOrder.numerical.sort [padded, square]) ∧
    textWorth? "x^2 + x^02 = 0" = textWorth? "x^02 + x^2 = 0" ∧
      canonicalForm .numerical "x^2 + x^02 = 0" ≠ canonicalForm .numerical "x^02 + x^2 = 0" := by
  intro square padded
  have squareWritten : square.key.HasWrittenPower := ⟨['2'], List.all_eq_true.mp rfl, rfl⟩
  have paddedWritten : padded.key.HasWrittenPower := ⟨['0', '2'], List.all_eq_true.mp rfl, rfl⟩
  refine ⟨⟨squareWritten, paddedWritten, by decide, by decide +kernel⟩,
    ⟨by decide, by decide +kernel⟩, ?_, by decide +kernel⟩
  apply (@sameTerms_iff .textual _ _).mp
  rw [show canonicalTerms .textual "x^2 + x^02 = 0" = .ok [square, padded] by decide +kernel,
    show canonicalTerms .textual "x^02 + x^2 = 0" = .ok [square, padded] by decide +kernel]
  exact List.Perm.refl _

end CanonicalEquation
