import CanonicalEquation.CanonicalForm
import CanonicalEquation.Proofs.Equation.CanonicalText
import CanonicalEquation.Proofs.Equation.Sides
import CanonicalEquation.Proofs.Group.Opening

/-!
# What a canonical form is worth

The canonical form of an equation writes terms in front of `= 0`.  There are
such terms exactly when the opened equation is worth something, and that is
what the terms are worth.  With powers compared as texts, the whole canonical
form is the text of this worth.
-/

namespace CanonicalEquation

/-- The terms that the canonical form of an equation writes, in their order. -/
def canonicalTerms (order : PowerOrder) (text : String) : Except Error (List Term) := do
  let tokens ← (Group.openAll (Token.scan text)).mapError Error.group
  let equation ← Equation.ofTokens tokens
  let summed ← SummedEquation.ofTokens equation.zeroForm
  return order.sort summed.terms

/-- What the equation that a text writes is worth, with its groups opened. -/
noncomputable def textWorth? (text : String) : Option Combination :=
  (Group.openAll (Token.scan text)).toOption.bind Equation.worth?

theorem textWorth?_of_openAll
    {text : String}
    {tokens opened : List Token}
    (scanned : Token.scan text = tokens)
    (opens : Group.openAll tokens = .ok opened) : textWorth? text = Equation.worth? opened := by
  rw [textWorth?, scanned, opens]
  rfl

theorem textWorth?_eq_none
    {text : String}
    {tokens : List Token}
    (scanned : Token.scan text = tokens)
    (fails : (Group.openAll tokens).toOption = none) : textWorth? text = none := by
  rw [textWorth?, scanned, fails, Option.bind_none]

/-- The canonical form writes its terms in front of `= 0`. -/
theorem canonicalForm_eq
    (order : PowerOrder)
    (text : String) :
    canonicalForm order text =
      (canonicalTerms order text).map fun terms => Equation.render terms Equation.zeroTail := by
  unfold canonicalForm canonicalTerms
  cases (Group.openAll (Token.scan text)).mapError Error.group with
  | error error => rfl
  | ok tokens =>
      change (Equation.ofTokens tokens >>= fun equation =>
          SummedEquation.ofTokens equation.zeroForm >>= fun summed =>
            .ok (Equation.render (order.sort summed.terms) summed.tail)) =
        (Equation.ofTokens tokens >>= fun equation =>
          SummedEquation.ofTokens equation.zeroForm >>= fun summed =>
            .ok (order.sort summed.terms)).map fun terms => Equation.render terms Equation.zeroTail
      cases cut : Equation.ofTokens tokens with
      | error error => rfl
      | ok equation =>
          obtain ⟨_, leftNone, rightNone, _⟩ := Equation.ofTokens_eq_ok_iff.mp cut
          change (SummedEquation.ofTokens equation.zeroForm >>= _) =
            (SummedEquation.ofTokens equation.zeroForm >>= _).map _
          rw [Equation.summed_zeroForm leftNone rightNone]
          cases Side.terms (equation.left ++ Equation.subtract equation.right) <;> rfl

/-- The terms of a canonical form are the sorted terms of a tally. -/
theorem canonicalTerms_eq_ok_iff
    {order : PowerOrder}
    {text : String}
    {terms : List Term} :
    canonicalTerms order text = .ok terms ↔
      ∃ opened equation found, Group.openAll (Token.scan text) = .ok opened ∧
        Equation.ofTokens opened = .ok equation ∧
        Side.terms (equation.left ++ Equation.subtract equation.right) = .ok found ∧
        terms = order.sort (Tally.ofTerms found).terms := by
  unfold canonicalTerms
  constructor
  · intro canonical
    obtain ⟨opened, opens, canonical⟩ := bind_eq_ok_iff.mp canonical
    obtain ⟨equation, cut, canonical⟩ := bind_eq_ok_iff.mp canonical
    obtain ⟨_, leftNone, rightNone, _⟩ := Equation.ofTokens_eq_ok_iff.mp cut
    rw [Equation.summed_zeroForm leftNone rightNone] at canonical
    cases found : Side.terms (equation.left ++ Equation.subtract equation.right) with
    | error error =>
        rw [found] at canonical
        cases canonical
    | ok sideTerms =>
        rw [found] at canonical
        cases canonical
        exact ⟨opened, equation, sideTerms, mapError_eq_ok_iff.mp opens, cut, found, rfl⟩
  · rintro ⟨opened, equation, found, opens, cut, sideRead, rfl⟩
    obtain ⟨_, leftNone, rightNone, _⟩ := Equation.ofTokens_eq_ok_iff.mp cut
    refine bind_eq_ok_iff.mpr ⟨opened, mapError_eq_ok_iff.mpr opens, ?_⟩
    refine bind_eq_ok_iff.mpr ⟨equation, cut, ?_⟩
    rw [Equation.summed_zeroForm leftNone rightNone, sideRead]
    rfl

/-- Where the text of an equation has no canonical form, its groups cannot be
opened, it is not cut into two sides, or their tokens cannot be read. -/
theorem canonicalForm_eq_error_iff
    {order : PowerOrder}
    {text : String}
    {error : Error} :
    canonicalForm order text = .error error ↔
      (∃ cause, Group.openAll (Token.scan text) = .error cause ∧ .group cause = error) ∨
        ∃ opened, Group.openAll (Token.scan text) = .ok opened ∧
          (Equation.ofTokens opened = .error error ∨
            ∃ equation, Equation.ofTokens opened = .ok equation ∧
              Side.terms (equation.left ++ Equation.subtract equation.right) = .error error) := by
  unfold canonicalForm
  rw [bind_eq_error_iff, mapError_eq_error_iff]
  simp only [mapError_eq_ok_iff]
  refine or_congr_right (exists_congr fun opened => and_congr_right fun _ => ?_)
  rw [bind_eq_error_iff]
  refine or_congr_right (exists_congr fun equation => and_congr_right fun cut => ?_)
  obtain ⟨_, leftNone, rightNone, _⟩ := Equation.ofTokens_eq_ok_iff.mp cut
  rw [Equation.summed_zeroForm leftNone rightNone]
  cases Side.terms (equation.left ++ Equation.subtract equation.right) with
  | error cause =>
      change Except.error cause = Except.error error ↔ _
      rw [Except.error.injEq, Except.error.injEq]
  | ok terms => exact iff_of_false nofun nofun

theorem ofTerms_sort_terms
    (order : PowerOrder)
    (terms : List Term) :
    Combination.ofTerms (order.sort (Tally.ofTerms terms).terms) = Combination.ofTerms terms := by
  rw [Combination.ofTerms_perm (order.sort_perm _), Tally.ofTerms_terms]

/-- An equation with a canonical form is worth what its canonical terms are
worth. -/
theorem textWorth?_of_canonicalTerms
    {order : PowerOrder}
    {text : String}
    {terms : List Term}
    (canonical : canonicalTerms order text = .ok terms) :
    textWorth? text = some (Combination.ofTerms terms) := by
  obtain ⟨opened, equation, found, opens, cut, sideRead, rfl⟩ :=
    canonicalTerms_eq_ok_iff.mp canonical
  have worth := Side.map_terms_eq_worth? (equation.left ++ Equation.subtract equation.right)
  rw [sideRead] at worth
  rw [textWorth?, opens, ofTerms_sort_terms]
  change Equation.worth? opened = _
  rw [Equation.worth?, cut]
  exact worth.symm

/-- An equation that is worth something has canonical terms, the sorted terms
of a tally. -/
theorem exists_canonicalTerms
    {text : String}
    {worth : Combination}
    (isWorth : textWorth? text = some worth)
    (order : PowerOrder) :
    ∃ found, canonicalTerms order text = .ok (order.sort (Tally.ofTerms found).terms) ∧
      Combination.ofTerms found = worth := by
  obtain ⟨opened, opens, isWorth⟩ := Option.bind_eq_some_iff.mp isWorth
  obtain ⟨equation, cut, isWorth⟩ := Option.bind_eq_some_iff.mp isWorth
  rw [← Side.map_terms_eq_worth?] at isWorth
  obtain ⟨found, sideRead, equal⟩ := Option.map_eq_some_iff.mp isWorth
  refine ⟨found, canonicalTerms_eq_ok_iff.mpr ⟨opened, equation, found, ?_, ?_, ?_, rfl⟩, equal⟩
  · exact eq_ok_of_toOption opens
  · exact eq_ok_of_toOption cut
  · exact eq_ok_of_toOption sideRead

/-- With powers compared as texts, the canonical form is the text of what the
equation is worth. -/
theorem canonicalForm_textual
    {text : String}
    {worth : Combination}
    (isWorth : textWorth? text = some worth) :
    canonicalForm .textual text = .ok worth.text := by
  obtain ⟨found, canonical, rfl⟩ := exists_canonicalTerms isWorth .textual
  rw [canonicalForm_eq, canonical]
  exact congrArg Except.ok (Equation.render_sort_terms found)

/-- The equations with a canonical form are those that are worth something. -/
theorem exists_canonicalForm_iff
    {order : PowerOrder}
    {text : String} :
    (∃ canonical, canonicalForm order text = .ok canonical) ↔
      ∃ worth, textWorth? text = some worth := by
  rw [canonicalForm_eq]
  constructor
  · rintro ⟨canonical, found⟩
    cases terms : canonicalTerms order text with
    | error error =>
        rw [terms] at found
        cases found
    | ok sorted => exact ⟨_, textWorth?_of_canonicalTerms terms⟩
  · rintro ⟨worth, isWorth⟩
    obtain ⟨found, canonical, _⟩ := exists_canonicalTerms isWorth order
    rw [canonical]
    exact ⟨_, rfl⟩

/-! ## The same canonical terms -/

/-- Whether two results are the same terms up to their order, or both
errors. -/
def SameTerms : Except Error (List Term) → Except Error (List Term) → Prop
  | .ok first, .ok second => first.Perm second
  | .error _, .error _ => True
  | _, _ => False

/-- Two equations have the same canonical terms exactly when they are worth the
same, or nothing both. -/
theorem sameTerms_iff
    {order : PowerOrder}
    {first second : String} :
    SameTerms (canonicalTerms order first) (canonicalTerms order second) ↔
      textWorth? first = textWorth? second := by
  have none_of_error : ∀ {text : String} {error : Error},
      canonicalTerms order text = .error error → textWorth? text = none := by
    intro text error failed
    by_contra isWorth
    obtain ⟨worth, isWorth⟩ := Option.ne_none_iff_exists'.mp isWorth
    obtain ⟨found, canonical, _⟩ := exists_canonicalTerms isWorth order
    rw [canonical] at failed
    cases failed
  cases firstTerms : canonicalTerms order first with
  | error error =>
      cases secondTerms : canonicalTerms order second with
      | error other => simp [SameTerms, none_of_error firstTerms, none_of_error secondTerms]
      | ok terms =>
          simp [SameTerms, none_of_error firstTerms, textWorth?_of_canonicalTerms secondTerms]
  | ok terms =>
      cases secondTerms : canonicalTerms order second with
      | error error =>
          simp [SameTerms, textWorth?_of_canonicalTerms firstTerms, none_of_error secondTerms]
      | ok others =>
          obtain ⟨_, _, found, _, _, _, rfl⟩ := canonicalTerms_eq_ok_iff.mp firstTerms
          obtain ⟨_, _, otherFound, _, _, _, rfl⟩ := canonicalTerms_eq_ok_iff.mp secondTerms
          rw [textWorth?_of_canonicalTerms firstTerms, textWorth?_of_canonicalTerms secondTerms,
            ofTerms_sort_terms, ofTerms_sort_terms, Option.some_inj, ← Tally.terms_perm_iff]
          constructor
          · intro permuted
            exact (order.sort_perm _).symm.trans (permuted.trans (order.sort_perm _))
          · intro permuted
            exact (order.sort_perm _).trans (permuted.trans (order.sort_perm _).symm)

end CanonicalEquation
