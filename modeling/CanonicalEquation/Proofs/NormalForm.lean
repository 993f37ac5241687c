import CanonicalEquation.Proofs.Equation.Rendering

/-!
# The canonical form is a normal form

The canonical form of an equation is read as the terms that it was written
from.  So it is its own canonical form, and it is worth what the equation is
worth.  With powers compared as texts, two equations have the same canonical
form exactly when they have the same sums on their left-hand sides.
-/

namespace CanonicalEquation

theorem canonicalForm_eq_ok_iff
    {order : PowerOrder}
    {text canonical : String} :
    canonicalForm order text = .ok canonical ↔
      ∃ terms, canonicalTerms order text = .ok terms ∧
        canonical = Equation.render terms Equation.zeroTail := by
  rw [canonicalForm_eq]
  constructor
  · intro accepted
    cases found : canonicalTerms order text with
    | error error =>
        rw [found] at accepted
        cases accepted
    | ok terms =>
        rw [found] at accepted
        cases accepted
        exact ⟨terms, rfl, rfl⟩
  · rintro ⟨terms, found, rfl⟩
    rw [found]
    rfl

/-- The canonical form of an equation has the canonical terms of the
equation. -/
theorem canonicalTerms_of_canonicalForm
    {order : PowerOrder}
    {text canonical : String}
    (accepted : canonicalForm order text = .ok canonical) :
    canonicalTerms order canonical = canonicalTerms order text := by
  obtain ⟨terms, found, rfl⟩ := canonicalForm_eq_ok_iff.mp accepted
  rw [found, canonicalTerms_render (isCanonical_of_canonicalTerms found)]

/-! ## Idempotence -/

/-- A canonical form is its own canonical form. -/
theorem canonicalForm_idempotent
    {order : PowerOrder}
    {text canonical : String}
    (accepted : canonicalForm order text = .ok canonical) :
    canonicalForm order canonical = .ok canonical := by
  rw [canonicalForm_eq, canonicalTerms_of_canonicalForm accepted, ← canonicalForm_eq, accepted]

/-- Powers that are the same number keep their order. -/
theorem canonicalForm_idempotent_tie :
    canonicalForm .numerical "x^02 - 2 * (x^2 - 1.50) = y - y" = .ok "x^02 - 2x^2 + 3 = 0" ∧
      canonicalForm .numerical "x^02 - 2x^2 + 3 = 0" = .ok "x^02 - 2x^2 + 3 = 0" := by
  have accepted : canonicalForm .numerical "x^02 - 2 * (x^2 - 1.50) = y - y" =
      .ok "x^02 - 2x^2 + 3 = 0" := by decide +kernel
  exact ⟨accepted, canonicalForm_idempotent accepted⟩

/-! ## Completeness -/

/-- The terms in front of the equality sign of an equation whose groups are
opened and whose right-hand side is moved to the left. -/
def movedTerms (text : String) : Except Error (List Term) := do
  let tokens ← (Group.openAll (Token.scan text)).mapError Error.group
  let equation ← Equation.ofTokens tokens
  Side.terms (equation.zeroForm.takeWhile (· != .equals))

/-- Canonical terms are the sorted sums of the moved terms. -/
theorem exists_movedTerms
    {order : PowerOrder}
    {text : String}
    {terms : List Term}
    (canonical : canonicalTerms order text = .ok terms) :
    ∃ found, movedTerms text = .ok found ∧
      Combination.ofTerms terms = Combination.ofTerms found := by
  obtain ⟨opened, equation, found, opens, cut, sideRead, rfl⟩ :=
    canonicalTerms_eq_ok_iff.mp canonical
  obtain ⟨_, leftNone, rightNone, _⟩ := Equation.ofTokens_eq_ok_iff.mp cut
  have sideNone : .equals ∉ equation.left ++ Equation.subtract equation.right := by
    rw [List.mem_append, not_or]
    exact ⟨leftNone, Equation.equals_notMem_subtract rightNone⟩
  refine ⟨found, ?_, ofTerms_sort_terms order found⟩
  refine bind_eq_ok_iff.mpr ⟨opened, mapError_eq_ok_iff.mpr opens, ?_⟩
  refine bind_eq_ok_iff.mpr ⟨equation, cut, ?_⟩
  rw [Equation.zeroForm, Equation.zeroTail, Equation.takeWhile_ne_equals sideNone, sideRead]

/-- The canonical form of an equation is worth what the equation is worth. -/
theorem textWorth?_canonicalForm
    {order : PowerOrder}
    {text canonical : String}
    (accepted : canonicalForm order text = .ok canonical) :
    textWorth? canonical = textWorth? text := by
  obtain ⟨terms, found, _⟩ := canonicalForm_eq_ok_iff.mp accepted
  have readBack := canonicalTerms_of_canonicalForm accepted
  rw [found] at readBack
  rw [textWorth?_of_canonicalTerms readBack, textWorth?_of_canonicalTerms found]

theorem canonicalForm_eq_iff_textWorth?_eq
    {first second firstForm secondForm : String}
    (firstAccepted : canonicalForm .textual first = .ok firstForm)
    (secondAccepted : canonicalForm .textual second = .ok secondForm) :
    firstForm = secondForm ↔ textWorth? first = textWorth? second := by
  constructor
  · rintro rfl
    rw [← textWorth?_canonicalForm firstAccepted, textWorth?_canonicalForm secondAccepted]
  · intro equal
    obtain ⟨terms, found, _⟩ := canonicalForm_eq_ok_iff.mp secondAccepted
    have isWorth := textWorth?_of_canonicalTerms found
    rw [canonicalForm_textual (equal.trans isWorth)] at firstAccepted
    rw [canonicalForm_textual isWorth] at secondAccepted
    exact Except.ok.inj (firstAccepted.symm.trans secondAccepted)

/-- With powers compared as texts, two equations have the same canonical form
exactly when the terms moved to their left-hand sides have the same sum at every
key.  So neither the order of these terms nor how a sum is split into them shows
in the canonical form. -/
theorem canonicalForm_eq_iff_sumAt_eq
    {first second firstForm secondForm : String}
    (firstAccepted : canonicalForm .textual first = .ok firstForm)
    (secondAccepted : canonicalForm .textual second = .ok secondForm) :
    ∃ firstTerms secondTerms,
      movedTerms first = .ok firstTerms ∧ movedTerms second = .ok secondTerms ∧
        (firstForm = secondForm ↔
          ∀ key, Term.sumAt key firstTerms = Term.sumAt key secondTerms) := by
  obtain ⟨firstCanonical, firstFound, _⟩ := canonicalForm_eq_ok_iff.mp firstAccepted
  obtain ⟨secondCanonical, secondFound, _⟩ := canonicalForm_eq_ok_iff.mp secondAccepted
  obtain ⟨firstTerms, firstMoved, firstSum⟩ := exists_movedTerms firstFound
  obtain ⟨secondTerms, secondMoved, secondSum⟩ := exists_movedTerms secondFound
  refine ⟨firstTerms, secondTerms, firstMoved, secondMoved, ?_⟩
  rw [canonicalForm_eq_iff_textWorth?_eq firstAccepted secondAccepted,
    textWorth?_of_canonicalTerms firstFound, textWorth?_of_canonicalTerms secondFound, firstSum,
    secondSum, Option.some_inj, Finsupp.ext_iff]
  simp only [Combination.ofTerms_apply]

/-- Two equations whose terms stand on other sides, in another order and in
other pieces. -/
theorem sumAt_eq_of_moved_and_split :
    canonicalForm .textual "2x^2 + y = 0.5" = .ok "2x^2 + y - 0.5 = 0" ∧
      canonicalForm .textual "0 = 0.25 * (2 - 4y) - x^2 - x^2" = .ok "2x^2 + y - 0.5 = 0" ∧
      ∃ firstTerms secondTerms,
        movedTerms "2x^2 + y = 0.5" = .ok firstTerms ∧
          movedTerms "0 = 0.25 * (2 - 4y) - x^2 - x^2" = .ok secondTerms ∧
          ∀ key, Term.sumAt key firstTerms = Term.sumAt key secondTerms := by
  have firstAccepted : canonicalForm .textual "2x^2 + y = 0.5" = .ok "2x^2 + y - 0.5 = 0" := by
    decide +kernel
  have secondAccepted : canonicalForm .textual "0 = 0.25 * (2 - 4y) - x^2 - x^2" =
      .ok "2x^2 + y - 0.5 = 0" := by decide +kernel
  obtain ⟨firstTerms, secondTerms, firstMoved, secondMoved, same⟩ :=
    canonicalForm_eq_iff_sumAt_eq firstAccepted secondAccepted
  exact ⟨firstAccepted, secondAccepted, firstTerms, secondTerms, firstMoved, secondMoved,
    same.mp rfl⟩

end CanonicalEquation
