import CanonicalEquation.Proofs.NormalForm

/-!
# Both orders of powers

How powers are compared decides in which order the terms of a canonical form
are written, and nothing else.  With either comparison an equation has the same
error, or the same keys with the same values on its left-hand side.  What is
lost with powers compared as numbers is only the order of keys whose powers are
the same number, and comparing them as texts restores it.
-/

namespace CanonicalEquation

/-- The equation that a text writes, with all like terms summed on its left-hand
side. -/
def summedEquation (text : String) : Except Error SummedEquation := do
  let tokens ← (Group.openAll (Token.scan text)).mapError Error.group
  let equation ← Equation.ofTokens tokens
  SummedEquation.ofTokens equation.zeroForm

/-- The order matters to the terms only when everything has been summed. -/
theorem canonicalForm_eq_map
    (order : PowerOrder)
    (text : String) :
    canonicalForm order text =
      (summedEquation text).map fun summed =>
        Equation.render (order.sort summed.terms) summed.tail := by
  unfold canonicalForm summedEquation
  cases (Group.openAll (Token.scan text)).mapError Error.group with
  | error error => rfl
  | ok tokens =>
      change (Equation.ofTokens tokens >>= fun equation =>
          SummedEquation.ofTokens equation.zeroForm >>= _) =
        (Equation.ofTokens tokens >>= fun equation =>
          SummedEquation.ofTokens equation.zeroForm).map _
      cases Equation.ofTokens tokens with
      | error error => rfl
      | ok equation =>
          change (SummedEquation.ofTokens equation.zeroForm >>= _) =
            (SummedEquation.ofTokens equation.zeroForm).map _
          cases SummedEquation.ofTokens equation.zeroForm <;> rfl

/-- An equation has the same error in either order. -/
theorem error_of_error
    {order : PowerOrder}
    {text : String}
    {error : Error}
    (failed : canonicalForm order text = .error error)
    (other : PowerOrder) : canonicalForm other text = .error error := by
  rw [canonicalForm_eq_map] at failed ⊢
  cases summed : summedEquation text with
  | error found =>
      rw [summed] at failed
      exact failed
  | ok found =>
      rw [summed] at failed
      cases failed

/-- An equation has the same canonical terms in either order, up to their
order. -/
theorem exists_canonicalTerms_perm
    {order : PowerOrder}
    {text : String}
    {terms : List Term}
    (canonical : canonicalTerms order text = .ok terms)
    (other : PowerOrder) :
    ∃ others, canonicalTerms other text = .ok others ∧ terms.Perm others := by
  obtain ⟨opened, equation, found, opens, cut, sideRead, rfl⟩ :=
    canonicalTerms_eq_ok_iff.mp canonical
  refine ⟨other.sort (Tally.ofTerms found).terms, ?_, ?_⟩
  · exact canonicalTerms_eq_ok_iff.mpr ⟨opened, equation, found, opens, cut, sideRead, rfl⟩
  · exact (order.sort_perm _).trans (other.sort_perm _).symm

/-! ## The left-hand side of a written equation -/

/-- The keys and the values of the terms that stand in front of the equality
sign of a text. -/
def leftValues (text : String) : Except Error (List (Key × Rat)) := do
  let terms ← Side.terms ((Token.scan text).takeWhile (· != .equals))
  return terms.map fun term => (term.key, term.value)

/-- The keys and the values that terms are written with.  Without terms a zero is
written. -/
def writtenValues : List Term → List (Key × Rat)
  | [] => [(Key.constant, 0)]
  | first :: rest => (first :: rest).map fun term => (term.key, term.value)

theorem leftValues_render
    {terms : List Term}
    (wellFormed : ∀ term ∈ terms, term.WellFormed) :
    leftValues (Equation.render terms Equation.zeroTail) = .ok (writtenValues terms) := by
  have leftNone := Equation.equals_notMem_sideTokens wellFormed
  rw [leftValues, Equation.scan_render wellFormed Equation.isPlainWord_zeroTail, Equation.zeroTail,
    Equation.takeWhile_ne_equals leftNone]
  cases terms with
  | nil => rfl
  | cons first rest =>
      have sideRead : Side.terms (Equation.sideTokens (first :: rest)) =
          .ok ((first :: rest).map Term.reread) :=
        Side.terms_eq_ok_iff.mpr ⟨.afterTerm, Equation.read?_sideTokens_cons wellFormed, rfl⟩
      rw [sideRead]
      exact congrArg Except.ok (Term.map_reread wellFormed)

theorem writtenValues_perm
    {first second : List Term}
    (permuted : first.Perm second) : (writtenValues first).Perm (writtenValues second) := by
  cases first with
  | nil =>
      obtain rfl := permuted.nil_eq
      exact List.Perm.refl _
  | cons term rest =>
      cases second with
      | nil => exact absurd permuted.eq_nil (List.cons_ne_nil _ _)
      | cons other others => exact permuted.map fun term => (term.key, term.value)

theorem nodup_keys_writtenValues
    {terms : List Term}
    (distinct : (terms.map Term.key).Nodup) : ((writtenValues terms).map Prod.fst).Nodup := by
  cases terms with
  | nil => exact List.nodup_singleton _
  | cons first rest =>
      rw [writtenValues, List.map_map]
      exact distinct

/-! ## Only the order changes -/

/-- With powers compared as texts and as numbers, an equation has the same
error, or the same keys with the same values on its left-hand side, each key
once.  Its canonical form with powers compared as texts is that of its canonical
form with powers compared as numbers. -/
theorem canonicalForm_of_either_order (text : String) :
    (∃ error, canonicalForm .textual text = .error error ∧
      canonicalForm .numerical text = .error error) ∨
    ∃ textual numerical textualValues numericalValues,
      canonicalForm .textual text = .ok textual ∧
      canonicalForm .numerical text = .ok numerical ∧
      leftValues textual = .ok textualValues ∧
      leftValues numerical = .ok numericalValues ∧
      textualValues.Perm numericalValues ∧
      (textualValues.map Prod.fst).Nodup ∧
      canonicalForm .textual numerical = .ok textual := by
  cases textualResult : canonicalForm .textual text with
  | error error => exact .inl ⟨error, rfl, error_of_error textualResult .numerical⟩
  | ok textual =>
      right
      obtain ⟨terms, found, rfl⟩ := canonicalForm_eq_ok_iff.mp textualResult
      obtain ⟨others, othersFound, permuted⟩ := exists_canonicalTerms_perm found .numerical
      have canonical := isCanonical_of_canonicalTerms found
      have numericalResult := canonicalForm_eq_ok_iff.mpr ⟨others, othersFound, rfl⟩
      refine ⟨_, _, _, _, rfl, numericalResult, leftValues_render canonical.wellFormed,
        leftValues_render (isCanonical_of_canonicalTerms othersFound).wellFormed,
        writtenValues_perm permuted, nodup_keys_writtenValues canonical.distinct, ?_⟩
      -- The canonical form with powers compared as texts is a function of what the equation is
      -- worth, and the other canonical form is worth the same.
      have isWorth := textWorth?_of_canonicalTerms found
      rw [canonicalForm_textual isWorth] at textualResult
      rw [canonicalForm_textual ((textWorth?_canonicalForm numericalResult).trans isWorth)]
      exact textualResult

example :
    canonicalForm .textual "x^2 + x^10 = x^02" = .ok "x^2 + x^10 - x^02 = 0" ∧
      canonicalForm .numerical "x^2 + x^10 = x^02" = .ok "x^10 + x^2 - x^02 = 0" := by
  decide +kernel

end CanonicalEquation
