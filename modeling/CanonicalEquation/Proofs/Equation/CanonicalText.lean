import CanonicalEquation.CanonicalForm
import CanonicalEquation.Proofs.Decimal.Rendering
import CanonicalEquation.Proofs.Equation.Tally
import CanonicalEquation.Proofs.Term.Order
import CanonicalEquation.Proofs.Term.Reading
import Mathlib.Data.Finset.Sort

/-!
# The canonical text of a combination

A combination has one text: its keys in their order, each with its number.
Summing, sorting and writing terms gives the text of what the terms are worth.
-/

namespace CanonicalEquation
namespace Combination

/-- A key behind a magnitude.  In front of letters a magnitude of one is left
out. -/
def unsignedText (key : Key) (magnitude : Rat) : String :=
  (if key.letters ≠ "" ∧ magnitude = 1 then "" else Decimal.render magnitude) ++
    key.letters ++ key.power

/-- The first key of an equation with its number. -/
def leadingText (key : Key) (value : Rat) : String :=
  (if value < 0 then "-" else "") ++ unsignedText key |value|

/-- A later key of an equation with its number. -/
def followingText (key : Key) (value : Rat) : String :=
  (if value < 0 then "- " else "+ ") ++ unsignedText key |value|

/-- The keys of a combination with a number other than zero, in order. -/
def keys (combination : Combination) : List Key :=
  combination.support.sort

/-- The texts of keys with their numbers, a `0` if there are none. -/
def sideTexts (combination : Combination) : List Key → List String
  | [] => ["0"]
  | first :: rest =>
      leadingText first (combination first) ::
        rest.map fun key => followingText key (combination key)

/-- The text of the equation of a combination with zero. -/
def text (combination : Combination) : String :=
  " ".intercalate (combination.sideTexts combination.keys ++ ["= 0"])

@[simp] theorem mem_keys
    {combination : Combination}
    {key : Key} : key ∈ combination.keys ↔ combination key ≠ 0 := by
  rw [keys, Finset.mem_sort, Finsupp.mem_support_iff]

/-- The keys are in strict order. -/
theorem pairwise_keys
    (combination : Combination) : combination.keys.Pairwise (· < ·) :=
  (Finset.sortedLT_sort combination.support).pairwise

/-! ## Exact numbers -/

/-- The combinations whose numbers all have a finite decimal expansion. -/
def IsFinite (combination : Combination) : Prop :=
  ∀ key, Decimal.IsFinite (combination key)

theorem IsFinite.zero : IsFinite 0 := fun _ => Decimal.IsFinite.zero

theorem IsFinite.add
    {first second : Combination}
    (firstFinite : first.IsFinite)
    (secondFinite : second.IsFinite) : (first + second).IsFinite := by
  intro key
  rw [Finsupp.add_apply]
  exact (firstFinite key).add (secondFinite key)

theorem IsFinite.neg
    {combination : Combination}
    (finite : combination.IsFinite) : (-combination).IsFinite := by
  intro key
  rw [Finsupp.neg_apply]
  exact (finite key).neg

theorem IsFinite.scale
    {combination : Combination}
    (finite : combination.IsFinite)
    (sign : Sign) : (sign.scale combination).IsFinite := by
  cases sign with
  | plus => exact finite
  | minus => exact finite.neg

theorem IsFinite.smul
    {combination : Combination}
    (finite : combination.IsFinite)
    {factor : Rat}
    (factorFinite : Decimal.IsFinite factor) : (factor • combination).IsFinite := by
  intro key
  rw [Finsupp.smul_apply, smul_eq_mul]
  exact factorFinite.mul (finite key)

theorem IsFinite.sum
    {combinations : List Combination}
    (finite : ∀ combination ∈ combinations, combination.IsFinite) :
    combinations.sum.IsFinite := by
  induction combinations with
  | nil => exact .zero
  | cons first rest inductionHypothesis =>
      rw [List.sum_cons]
      exact (finite first List.mem_cons_self).add
        (inductionHypothesis fun combination member =>
          finite combination (List.mem_cons_of_mem _ member))

theorem isFinite_combination
    {term : Term}
    (wellFormed : term.WellFormed) : term.combination.IsFinite := by
  intro key
  have value : Decimal.IsFinite term.value := by
    unfold Term.value
    cases term.sign with
    | plus => exact wellFormed.magnitude_isFinite
    | minus => exact wellFormed.magnitude_isFinite.neg
  unfold Term.combination
  by_cases same : key = term.key
  · rw [same, Finsupp.single_eq_same]
    exact value
  · rw [Finsupp.single_eq_of_ne same]
    exact .zero

theorem isFinite_ofTerms
    {terms : List Term}
    (wellFormed : ∀ term ∈ terms, term.WellFormed) : (ofTerms terms).IsFinite := by
  apply IsFinite.sum
  intro combination member
  obtain ⟨term, inTerms, rfl⟩ := List.mem_map.mp member
  exact isFinite_combination (wellFormed term inTerms)

/-- The magnitudes of such a combination are written exactly, without
superfluous zeros. -/
theorem IsFinite.exists_numeral
    {combination : Combination}
    (finite : combination.IsFinite)
    (key : Key) :
    ∃ numeral : Numeral, numeral.WellFormed ∧ numeral.IsCanonical ∧
      numeral.value = |combination key| ∧
      Decimal.render |combination key| = String.ofList numeral.chars :=
  ⟨Decimal.magnitudeNumeral |combination key|, Decimal.wellFormed_magnitudeNumeral _,
    Decimal.isCanonical_magnitudeNumeral _,
    (Decimal.value_magnitudeNumeral_of_isFinite (finite key).abs).trans (abs_abs _),
    Decimal.render_of_nonneg (abs_nonneg _)⟩

end Combination

namespace Term

theorem unsignedText_of_ofValue?
    {key : Key}
    {value : Rat}
    {term : Term}
    (made : ofValue? key value = some term) :
    term.unsignedText = Combination.unsignedText key |value| := by
  have oneText : Decimal.render 1 = "1" := by decide +kernel
  unfold ofValue? at made
  split at made
  · exact absurd made (by simp)
  · rw [← Option.some.inj made, unsignedText, Combination.unsignedText, coefficientText, isConstant,
      Decimal.abs_eq_abs]
    congr 2
    by_cases constant : key.letters = ""
    · by_cases one : |value| = 1 <;> simp [constant, one, oneText]
    · by_cases one : |value| = 1 <;> simp [constant, one]

theorem leadingText_of_ofValue?
    {key : Key}
    {value : Rat}
    {term : Term}
    (made : ofValue? key value = some term) :
    term.leadingText = Combination.leadingText key value := by
  rw [leadingText, sign_of_ofValue? made, unsignedText_of_ofValue? made, Combination.leadingText,
    Sign.ofRat]
  by_cases negative : value < 0 <;> simp [negative]

theorem followingText_of_ofValue?
    {key : Key}
    {value : Rat}
    {term : Term}
    (made : ofValue? key value = some term) :
    term.followingText = Combination.followingText key value := by
  have minusText : Sign.minus.text ++ " " = "- " := by decide
  have plusText : Sign.plus.text ++ " " = "+ " := by decide
  rw [followingText, sign_of_ofValue? made, unsignedText_of_ofValue? made,
    Combination.followingText, Sign.ofRat]
  by_cases negative : value < 0 <;> simp [negative, minusText, plusText]

end Term

namespace Equation

/-- Terms that have their values from a combination are written as their keys
are. -/
theorem sideTexts_eq
    {combination : Combination}
    {terms : List Term}
    (made : ∀ term ∈ terms, Term.ofValue? term.key (combination term.key) = some term) :
    sideTexts terms = combination.sideTexts (terms.map Term.key) := by
  cases terms with
  | nil => rfl
  | cons first rest =>
      rw [sideTexts, List.map_cons, Combination.sideTexts,
        Term.leadingText_of_ofValue? (made first List.mem_cons_self), List.map_map]
      congr 1
      apply List.map_congr_left
      intro term member
      exact Term.followingText_of_ofValue? (made term (List.mem_cons_of_mem _ member))

/-- The sorted terms of a tally have the keys of what it was made of. -/
theorem map_key_sort_terms (terms : List Term) :
    (PowerOrder.textual.sort (Tally.ofTerms terms).terms).map Term.key =
      (Combination.ofTerms terms).keys := by
  apply List.Perm.eq_of_pairwise' (r := (· ≤ ·))
  · exact List.pairwise_map.mpr
      ((PowerOrder.textual.pairwise_sort _).imp PowerOrder.isLE_textual_iff.mp)
  · exact (Combination.ofTerms terms).pairwise_keys.imp le_of_lt
  · refine ((PowerOrder.sort_perm _ _).map Term.key).trans ?_
    apply (List.perm_ext_iff_of_nodup (Tally.nodup_keys_terms terms)
      (Finset.sort_nodup _ _)).mpr
    intro key
    exact Tally.mem_keys_terms_iff.trans Combination.mem_keys.symm

/-- Summed, sorted and written terms are the canonical text of what the terms
are worth. -/
theorem render_sort_terms (terms : List Term) :
    render (PowerOrder.textual.sort (Tally.ofTerms terms).terms) zeroTail =
      (Combination.ofTerms terms).text := by
  have made : ∀ term ∈ PowerOrder.textual.sort (Tally.ofTerms terms).terms,
      Term.ofValue? term.key (Combination.ofTerms terms term.key) = some term := fun term member =>
    Tally.mem_terms_iff.mp ((PowerOrder.sort_perm _ _).mem_iff.mp member)
  have zeroText : Token.spacedText zeroTail = "= 0" := by decide
  rw [render, Combination.text, sideTexts_eq made, map_key_sort_terms, zeroText]
  rfl

end Equation
end CanonicalEquation
