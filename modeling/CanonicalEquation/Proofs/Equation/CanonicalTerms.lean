import CanonicalEquation.Proofs.CanonicalForm

/-!
# The terms of a canonical form

Terms that are read can be written again.  So the terms of a canonical form,
which are summed and sorted from such terms, can be written, have distinct keys
and no value of zero, and are in order.
-/

namespace CanonicalEquation

/-! ## Terms that are read -/

namespace Side

/-- The terms that are read from a side can be written. -/
theorem wellFormed_of_read?
    {reading : Reading}
    {side : List Token}
    {result : List Term × Reading}
    (reads : read? reading side = some result) : ∀ term ∈ result.1, term.WellFormed := by
  induction side generalizing reading result with
  | nil =>
      cases reads
      exact List.forall_mem_nil _
  | cons token rest inductionHypothesis =>
      cases token with
      | sign sign =>
          rw [read?_sign] at reads
          exact inductionHypothesis reads
      | equals => cases reads
      | times => cases reads
      | literal text =>
          by_cases parenthesis : isParenthesis text = true
          · rw [read?_parenthesis reading parenthesis] at reads
            exact inductionHypothesis reads
          · rw [Bool.not_eq_true] at parenthesis
            by_cases ready : reading = .afterTerm
            · rw [ready, read?_literal_of_afterTerm parenthesis] at reads
              cases reads
            · rw [read?_literal ready parenthesis] at reads
              obtain ⟨term, isTerm, reads⟩ := Option.bind_eq_some_iff.mp reads
              obtain ⟨restResult, restReads, rfl⟩ := Option.map_eq_some_iff.mp reads
              have wellFormed : term.WellFormed := Term.wellFormed_of_ofChars? isTerm
              exact List.forall_mem_cons.mpr
                ⟨⟨wellFormed.key_wellFormed, wellFormed.magnitude_nonneg,
                  wellFormed.magnitude_isFinite⟩, inductionHypothesis restReads⟩

end Side

/-! ## Canonical terms -/

theorem Term.wellFormed_of_ofValue?
    {key : Key}
    (keyWellFormed : key.WellFormed)
    {value : Rat}
    (finite : Decimal.IsFinite value)
    {term : Term}
    (made : ofValue? key value = some term) : term.WellFormed := by
  refine ⟨?_, ?_, ?_⟩
  · rwa [key_of_ofValue? made]
  · rw [magnitude_of_ofValue? made, Decimal.abs_eq_abs]
    exact abs_nonneg value
  · rw [magnitude_of_ofValue? made, Decimal.abs_eq_abs]
    exact finite.abs

/-- The lists of terms that an equation in its canonical form can hold. -/
structure IsCanonical
    (order : PowerOrder)
    (terms : List Term) : Prop where
  wellFormed : ∀ term ∈ terms, term.WellFormed
  distinct : (terms.map Term.key).Nodup
  made : ∀ term ∈ terms, Term.ofValue? term.key term.value = some term
  sorted : terms.Pairwise fun first second => (order.orderingOfTerms first second).isLE = true

/-- Summing and sorting terms that can be written makes canonical terms. -/
theorem isCanonical_sort_terms
    (order : PowerOrder)
    {found : List Term}
    (wellFormed : ∀ term ∈ found, term.WellFormed) :
    IsCanonical order (order.sort (Tally.ofTerms found).terms) := by
  have permuted := order.sort_perm (Tally.ofTerms found).terms
  have made : ∀ term ∈ order.sort (Tally.ofTerms found).terms,
      Term.ofValue? term.key (Combination.ofTerms found term.key) = some term := fun term member =>
    Tally.mem_terms_iff.mp (permuted.mem_iff.mp member)
  refine ⟨fun term member => ?_, ?_, fun term member => ?_, order.pairwise_sort _⟩
  · refine Term.wellFormed_of_ofValue? ?_
      (Combination.isFinite_ofTerms wellFormed term.key) (made term member)
    have nonzero : Combination.ofTerms found term.key ≠ 0 :=
      Tally.mem_keys_terms_iff.mp (List.mem_map_of_mem (permuted.mem_iff.mp member))
    obtain ⟨original, inFound, sameKey⟩ := Combination.exists_of_ofTerms_ne_zero nonzero
    rw [← sameKey]
    exact (wellFormed original inFound).key_wellFormed
  · exact (permuted.map Term.key).nodup_iff.mpr (Tally.nodup_keys_terms found)
  · have value := Term.value_of_ofValue? (made term member)
    rw [value]
    exact made term member

/-- The terms of a canonical form are canonical. -/
theorem isCanonical_of_canonicalTerms
    {order : PowerOrder}
    {text : String}
    {terms : List Term}
    (canonical : canonicalTerms order text = .ok terms) : IsCanonical order terms := by
  obtain ⟨_, _, _, _, _, sideRead, rfl⟩ := canonicalTerms_eq_ok_iff.mp canonical
  obtain ⟨_, reads, _⟩ := Side.terms_eq_ok_iff.mp sideRead
  exact isCanonical_sort_terms order (Side.wellFormed_of_read? reads)

end CanonicalEquation
