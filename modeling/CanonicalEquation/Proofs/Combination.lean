import CanonicalEquation.Term.Basic
import Mathlib.Algebra.Order.Field.Rat
import Mathlib.Data.Finsupp.SMul
import Mathlib.GroupTheory.GroupAction.Ring
import Mathlib.Tactic.Abel
import Mathlib.Tactic.Linarith

/-!
# Combinations of keys

What a side of an equation is worth is a number for each key, zero for all but
finitely many keys.  A term is worth its value at its own key, and a list of
terms the sum of what its terms are worth.
-/

namespace CanonicalEquation

/-- A number for each key, zero for all but finitely many. -/
abbrev Combination : Type := Key →₀ Rat

/-- What a term is worth. -/
noncomputable def Term.combination (term : Term) : Combination :=
  Finsupp.single term.key term.value

/-- What a list of terms is worth. -/
noncomputable def Combination.ofTerms (terms : List Term) : Combination :=
  (terms.map Term.combination).sum

/-- The sum of the values of the terms with a key. -/
def Term.sumAt (key : Key) (terms : List Term) : Rat :=
  ((terms.filter fun term => term.key = key).map Term.value).sum

/-- A combination behind a sign. -/
noncomputable def Sign.scale : Sign → Combination → Combination
  | plus, combination => combination
  | minus, combination => -combination

namespace Sign

@[simp] theorem scale_plus (combination : Combination) : plus.scale combination = combination := rfl

@[simp] theorem scale_minus (combination : Combination) :
    minus.scale combination = -combination := rfl

theorem scale_add
    (sign : Sign)
    (first second : Combination) :
    sign.scale (first + second) = sign.scale first + sign.scale second := by
  cases sign
  · rfl
  · exact neg_add first second

@[simp] theorem scale_zero (sign : Sign) : sign.scale 0 = 0 := by
  cases sign
  · rfl
  · exact neg_zero

theorem scale_mul
    (first second : Sign)
    (combination : Combination) :
    (first * second).scale combination = first.scale (second.scale combination) := by
  cases first
  · rfl
  · cases second
    · rfl
    · exact (neg_neg combination).symm

theorem scale_neg
    (sign : Sign)
    (combination : Combination) : (-sign).scale combination = -sign.scale combination := by
  cases sign
  · rfl
  · exact (neg_neg combination).symm

protected theorem mul_neg (first second : Sign) : first * -second = -(first * second) := by
  cases first <;> cases second <;> rfl

protected theorem neg_mul (first second : Sign) : -first * second = -(first * second) := by
  cases first <;> cases second <;> rfl

@[simp] protected theorem neg_neg (sign : Sign) : - -sign = sign := by
  cases sign <;> rfl

protected theorem mul_assoc (first second third : Sign) :
    first * second * third = first * (second * third) := by
  cases first <;> cases second <;> cases third <;> rfl

theorem mul_plus (sign : Sign) : sign * plus = sign := by
  cases sign <;> rfl

theorem apply_mul
    (first second : Sign)
    (magnitude : Rat) :
    (first * second).apply magnitude = first.apply (second.apply magnitude) := by
  cases first
  · rfl
  · cases second
    · rfl
    · exact (neg_neg magnitude).symm

theorem scale_single
    (sign : Sign)
    (key : Key)
    (value : Rat) :
    sign.scale (Finsupp.single key value) = Finsupp.single key (sign.apply value) := by
  cases sign
  · rfl
  · exact (Finsupp.single_neg key value).symm

end Sign

/-- A sign in front of a term multiplies what the term is worth. -/
theorem Term.combination_signed
    (sign : Sign)
    (term : Term) :
    Term.combination { term with sign := sign * term.sign } = sign.scale term.combination := by
  rw [Term.combination, Term.combination, Sign.scale_single, Term.value, Term.value, Sign.apply_mul]
  rfl

namespace Combination

@[simp] theorem ofTerms_nil : ofTerms [] = 0 := rfl

@[simp] theorem ofTerms_cons
    (term : Term)
    (terms : List Term) : ofTerms (term :: terms) = term.combination + ofTerms terms := by
  simp [ofTerms]

@[simp] theorem ofTerms_append
    (former latter : List Term) :
    ofTerms (former ++ latter) = ofTerms former + ofTerms latter := by
  simp [ofTerms]

theorem ofTerms_perm
    {first second : List Term}
    (permuted : first.Perm second) : ofTerms first = ofTerms second :=
  (permuted.map Term.combination).sum_eq

/-- Only zero is its own opposite. -/
theorem eq_neg_iff
    {combination : Combination} : combination = -combination ↔ combination = 0 := by
  constructor
  · intro equal
    ext key
    have atKey := DFunLike.congr_fun equal key
    rw [Finsupp.neg_apply] at atKey
    rw [Finsupp.zero_apply]
    linarith
  · rintro rfl
    exact neg_zero.symm

/-- At each key stands the sum of the values of the terms with that key. -/
theorem ofTerms_apply
    (terms : List Term)
    (key : Key) : ofTerms terms key = Term.sumAt key terms := by
  unfold Term.sumAt
  induction terms with
  | nil => rfl
  | cons first rest inductionHypothesis =>
      rw [ofTerms_cons, Finsupp.add_apply, inductionHypothesis, Term.combination]
      by_cases equal : first.key = key
      · rw [List.filter_cons_of_pos (by simpa using equal), List.map_cons, List.sum_cons, equal,
          Finsupp.single_eq_same]
      · rw [List.filter_cons_of_neg (by simpa using equal),
          Finsupp.single_eq_of_ne (Ne.symm equal), zero_add]

/-- Where terms are not worth zero, one of them has the key. -/
theorem exists_of_ofTerms_ne_zero
    {terms : List Term}
    {key : Key}
    (nonzero : ofTerms terms key ≠ 0) : ∃ term ∈ terms, term.key = key := by
  by_contra noTerm
  have noneLeft : (terms.filter fun term => term.key = key) = [] :=
    List.filter_eq_nil_iff.mpr fun term member same => noTerm ⟨term, member, by simpa using same⟩
  rw [ofTerms_apply, Term.sumAt, noneLeft] at nonzero
  exact nonzero rfl

end Combination

namespace Sign

theorem scale_inj
    {sign : Sign}
    {first second : Combination} : sign.scale first = sign.scale second ↔ first = second := by
  cases sign
  · exact Iff.rfl
  · exact neg_inj

theorem scale_eq_zero_iff
    {sign : Sign}
    {combination : Combination} : sign.scale combination = 0 ↔ combination = 0 := by
  cases sign
  · exact Iff.rfl
  · exact neg_eq_zero

/-- Turning a combination round once more changes it unless it is zero. -/
theorem scale_scale_eq_iff
    {turn : Sign}
    {combination : Combination} :
    turn.scale (turn.scale combination) = turn.scale combination ↔
      (turn = .minus → combination = 0) := by
  rw [scale_inj]
  cases turn with
  | plus => exact iff_of_true rfl nofun
  | minus =>
      rw [scale_minus, eq_comm, Combination.eq_neg_iff]
      exact ⟨fun zero _ => zero, fun zero => zero rfl⟩

end Sign
end CanonicalEquation
