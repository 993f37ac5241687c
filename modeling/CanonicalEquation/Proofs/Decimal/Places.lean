import CanonicalEquation.Decimal.Rendering
import Mathlib.Data.Nat.Factors
import Mathlib.Data.Nat.Prime.Basic
import Mathlib.Algebra.Order.Field.Rat
import Mathlib.Tactic.Positivity
import Mathlib.Tactic.Ring

/-!
# Decimal places suffice

Dividing a base out of a number leaves a number that the base does not divide.
So the places that are kept of a denominator follow from its powers of two and
five, and are enough for it whenever any number of places is.
-/

namespace CanonicalEquation
namespace Decimal

/-- Dividing out splits a number into a power of the base and a rest that the
base does not divide. -/
theorem divideOut_spec
    (base : Nat)
    (baseLarge : 1 < base)
    (number : Nat)
    (positive : 0 < number) :
    number = base ^ (divideOut base number).1 * (divideOut base number).2 ∧
      ¬ base ∣ (divideOut base number).2 := by
  induction number using Nat.strong_induction_on with
  | _ number inductionHypothesis =>
      unfold divideOut
      by_cases divides : number % base = 0
      · rw [dif_pos ⟨baseLarge, positive, divides⟩]
        have multiple : base * (number / base) = number :=
          Nat.mul_div_cancel' (Nat.dvd_of_mod_eq_zero divides)
        have quotientPositive : 0 < number / base := by
          apply Nat.pos_of_ne_zero
          intro zero
          rw [zero, Nat.mul_zero] at multiple
          omega
        obtain ⟨split, notDivides⟩ := inductionHypothesis (number / base)
          (Nat.div_lt_self positive baseLarge) quotientPositive
        refine ⟨?_, notDivides⟩
        calc
          number = base * (number / base) := multiple.symm
          _ = base * (base ^ (divideOut base (number / base)).1 *
                (divideOut base (number / base)).2) := by rw [← split]
          _ = base ^ ((divideOut base (number / base)).1 + 1) *
                (divideOut base (number / base)).2 := by ring
      · have stays : ¬ (1 < base ∧ 0 < number ∧ number % base = 0) := fun all =>
          divides all.2.2
        rw [dif_neg stays]
        refine ⟨by simp, fun divisor => divides ?_⟩
        exact Nat.mod_eq_zero_of_dvd divisor

/-- A power of the base is divided out of its product with a rest that the base
does not divide. -/
theorem divideOut_pow_mul
    {base : Nat}
    (baseLarge : 1 < base)
    (exponent : Nat)
    {rest : Nat}
    (positive : 0 < rest)
    (notDivides : ¬ base ∣ rest) :
    divideOut base (base ^ exponent * rest) = (exponent, rest) := by
  induction exponent with
  | zero =>
      have stays : ¬ (1 < base ∧ 0 < rest ∧ rest % base = 0) := fun all =>
        notDivides (Nat.dvd_of_mod_eq_zero all.2.2)
      rw [Nat.pow_zero, Nat.one_mul, divideOut, dif_neg stays]
  | succ exponent inductionHypothesis =>
      have multiple : base ^ (exponent + 1) * rest = base * (base ^ exponent * rest) := by ring
      have productPositive : 0 < base * (base ^ exponent * rest) := by positivity
      rw [multiple, divideOut, dif_pos ⟨baseLarge, productPositive, Nat.mul_mod_right _ _⟩,
        Nat.mul_div_cancel_left _ (Nat.zero_lt_of_lt baseLarge), inductionHypothesis]

/-- The places that are kept of a denominator, by its powers of two and five and
by whether another prime divides it. -/
theorem keptPlaces_eq
    (twos fives : Nat)
    {rest : Nat}
    (coprime : Nat.Coprime rest 10) :
    keptPlaces (2 ^ twos * 5 ^ fives * rest) =
      if rest = 1 then max twos fives else max twos fives + extraPlaces := by
  have notDivides : ∀ prime : Nat, 1 < prime → prime ∣ 10 → ¬ prime ∣ rest :=
    fun prime large inTen inRest =>
      absurd (Nat.eq_one_of_dvd_coprimes coprime inRest inTen) (Nat.ne_of_gt large)
  have positive : 0 < rest := by
    apply Nat.pos_of_ne_zero
    rintro rfl
    exact notDivides 2 (by decide) (by decide) (dvd_zero 2)
  have odd : ¬ 2 ∣ 5 ^ fives * rest := fun divides =>
    (Nat.prime_two.dvd_mul.mp divides).elim
      (fun inFives => absurd (Nat.prime_two.dvd_of_dvd_pow inFives) (by decide))
      (notDivides 2 (by decide) (by decide))
  have fivesPositive : 0 < 5 ^ fives * rest := by positivity
  rw [keptPlaces, Nat.mul_assoc, divideOut_pow_mul (by decide) twos fivesPositive odd]
  simp only [divideOut_pow_mul (by decide : 1 < 5) fives positive
    (notDivides 5 (by decide) (by decide))]

/-- Every positive number is a power of two times a power of five times a rest
that is prime to ten. -/
theorem exists_twos_fives
    {number : Nat}
    (positive : 0 < number) :
    ∃ twos fives rest : Nat, number = 2 ^ twos * 5 ^ fives * rest ∧ Nat.Coprime rest 10 := by
  obtain ⟨twosSplit, odd⟩ := divideOut_spec 2 (by decide) number positive
  generalize divideOut 2 number = strippedOfTwos at twosSplit odd
  obtain ⟨twos, odds⟩ := strippedOfTwos
  have oddsPositive : 0 < odds := Nat.pos_of_ne_zero fun zero => odd (zero ▸ dvd_zero 2)
  obtain ⟨fivesSplit, notFive⟩ := divideOut_spec 5 (by decide) odds oddsPositive
  generalize divideOut 5 odds = strippedOfFives at fivesSplit notFive
  obtain ⟨fives, rest⟩ := strippedOfFives
  refine ⟨twos, fives, rest, ?_, ?_⟩
  · rw [twosSplit, fivesSplit, Nat.mul_assoc]
  · have restOdd : ¬ 2 ∣ rest := fun two => odd (two.trans ⟨_, fivesSplit.trans (mul_comm _ _)⟩)
    exact Nat.Coprime.mul_right
      (Nat.prime_two.coprime_iff_not_dvd.mpr restOdd).symm
      (Nat.prime_five.coprime_iff_not_dvd.mpr notFive).symm

theorem two_pow_mul_five_pow_dvd (twos fives : Nat) :
    2 ^ twos * 5 ^ fives ∣ 10 ^ max twos fives :=
  calc
    2 ^ twos * 5 ^ fives ∣ 2 ^ max twos fives * 5 ^ max twos fives :=
      mul_dvd_mul (pow_dvd_pow 2 (le_max_left _ _)) (pow_dvd_pow 5 (le_max_right _ _))
    _ = (2 * 5) ^ max twos fives := (mul_pow 2 5 _).symm

/-- The places kept of a divisor of some power of ten are enough for it. -/
theorem dvd_ten_pow_keptPlaces
    {denominator places : Nat}
    (divides : denominator ∣ 10 ^ places) : denominator ∣ 10 ^ keptPlaces denominator := by
  have positive : 0 < denominator := Nat.pos_of_dvd_of_pos divides (by positivity)
  obtain ⟨twos, fives, rest, rfl, coprime⟩ := exists_twos_fives positive
  have restDivides : rest ∣ 10 ^ places := (Nat.dvd_mul_left _ _).trans divides
  have restOne : rest = 1 := Nat.Coprime.eq_one_of_dvd (coprime.pow_right places) restDivides
  rw [keptPlaces_eq twos fives coprime, if_pos restOne, restOne, mul_one]
  exact two_pow_mul_five_pow_dvd twos fives

end Decimal
end CanonicalEquation
