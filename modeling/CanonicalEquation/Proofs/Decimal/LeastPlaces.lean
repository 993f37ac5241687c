import CanonicalEquation.Proofs.Decimal.Places
import Mathlib.Data.Nat.Factorization.Basic

/-!
# No place too many

The loop that divides a base out of a number has no bound of its own.  It ends on
every positive number, since each division makes the number smaller, and has
then counted the exponent of the base in it.  On zero it never ends.

A denominator that divides a power of ten is a power of two times a power of
five, and the larger of the two exponents is the least number of places that is
enough for it.
-/

namespace CanonicalEquation
namespace Decimal

/-- How the division loop ends, from a count and a number.  A division that
leaves a remainder ends it with both.  Any other division counts, and the loop
goes on with the quotient. -/
inductive DivisionLoop (base : Nat) : Nat → Nat → Nat × Nat → Prop
  /-- The base does not divide the number. -/
  | ends
      {count number : Nat}
      (remains : number % base ≠ 0) : DivisionLoop base count number (count, number)
  /-- The base divides the number once more. -/
  | goesOn
      {count number : Nat}
      (divides : number % base = 0)
      {result : Nat × Nat}
      (behind : DivisionLoop base (count + 1) (number / base) result) :
      DivisionLoop base count number result

/-- The division loop ends in one way only. -/
theorem DivisionLoop.unique
    {base count number : Nat}
    {first second : Nat × Nat}
    (firstLoop : DivisionLoop base count number first)
    (secondLoop : DivisionLoop base count number second) : first = second := by
  induction firstLoop with
  | ends remains =>
      cases secondLoop with
      | ends _ => rfl
      | goesOn divides _ => exact absurd divides remains
  | goesOn divides _ inductionHypothesis =>
      cases secondLoop with
      | ends remains => exact absurd divides remains
      | goesOn _ behind => exact inductionHypothesis behind

/-- The division loop does not end on zero. -/
theorem not_divisionLoop_zero
    {base count : Nat}
    {result : Nat × Nat} : ¬DivisionLoop base count 0 result := by
  intro loop
  generalize zero : (0 : Nat) = number at loop
  induction loop with
  | ends remains => exact remains (zero ▸ Nat.zero_mod base)
  | goesOn _ _ inductionHypothesis => exact inductionHypothesis (zero ▸ (Nat.zero_div base).symm)

/-- On a positive number the division loop ends as the base is divided out. -/
theorem divisionLoop_divideOut
    {base : Nat}
    (baseLarge : 1 < base)
    {number : Nat}
    (positive : 0 < number)
    (count : Nat) :
    DivisionLoop base count number
      (count + (divideOut base number).1, (divideOut base number).2) := by
  induction number using Nat.strong_induction_on generalizing count with
  | _ number inductionHypothesis =>
      by_cases divides : number % base = 0
      · have quotientPositive : 0 < number / base :=
          Nat.div_pos (Nat.le_of_dvd positive (Nat.dvd_of_mod_eq_zero divides))
            (Nat.zero_lt_of_lt baseLarge)
        have behind := inductionHypothesis (number / base)
          (Nat.div_lt_self positive baseLarge) quotientPositive (count + 1)
        rw [divideOut, dif_pos ⟨baseLarge, positive, divides⟩]
        rw [Nat.add_assoc, Nat.add_comm 1] at behind
        exact .goesOn divides behind
      · rw [divideOut, dif_neg fun all => divides all.2.2]
        exact .ends divides

/-- The division loop ends on the positive numbers only, and there with what is
divided out. -/
theorem divisionLoop_iff
    {base : Nat}
    (baseLarge : 1 < base)
    {number : Nat}
    {result : Nat × Nat} :
    DivisionLoop base 0 number result ↔ 0 < number ∧ result = divideOut base number := by
  have loop : ∀ positive : 0 < number, DivisionLoop base 0 number (divideOut base number) := by
    intro positive
    have fromZero := divisionLoop_divideOut baseLarge positive 0
    rwa [Nat.zero_add] at fromZero
  constructor
  · intro ended
    have positive : 0 < number := by
      apply Nat.pos_of_ne_zero
      rintro rfl
      exact not_divisionLoop_zero ended
    exact ⟨positive, ended.unique (loop positive)⟩
  · rintro ⟨positive, rfl⟩
    exact loop positive

/-- A base is divided out as often as it divides the number. -/
theorem isGreatest_divideOut
    {base : Nat}
    (baseLarge : 1 < base)
    {number : Nat}
    (positive : 0 < number) :
    IsGreatest {count | base ^ count ∣ number} (divideOut base number).1 := by
  obtain ⟨split, notDivides⟩ := divideOut_spec base baseLarge number positive
  refine ⟨⟨_, split⟩, fun count divides => ?_⟩
  generalize divideOut base number = stripped at split notDivides
  by_contra more
  have oneMore : base ^ stripped.1 * base ∣ base ^ stripped.1 * stripped.2 := by
    rw [← pow_succ, ← split]
    exact (pow_dvd_pow base (Nat.lt_of_not_le more)).trans divides
  have powPositive : 0 < base ^ stripped.1 := Nat.pow_pos (Nat.zero_lt_of_lt baseLarge)
  exact notDivides (Nat.dvd_of_mul_dvd_mul_left powPositive oneMore)

/-- What is left is the number over the power that was divided out. -/
theorem snd_divideOut
    {base : Nat}
    (baseLarge : 1 < base)
    {number : Nat}
    (positive : 0 < number) :
    (divideOut base number).2 = number / base ^ (divideOut base number).1 := by
  obtain ⟨split, _⟩ := divideOut_spec base baseLarge number positive
  have powPositive : 0 < base ^ (divideOut base number).1 :=
    Nat.pow_pos (Nat.zero_lt_of_lt baseLarge)
  exact (Nat.div_eq_of_eq_mul_right powPositive split).symm

/-- The exponent of a prime in a number, from a power of it and a rest that it
does not divide. -/
theorem factorization_pow_mul
    {prime : Nat}
    (isPrime : prime.Prime)
    (exponent : Nat)
    {rest : Nat}
    (notDivides : ¬ prime ∣ rest) : (prime ^ exponent * rest).factorization prime = exponent := by
  have nonzero : rest ≠ 0 := fun zero => notDivides (zero ▸ dvd_zero prime)
  rw [Nat.factorization_mul (pow_ne_zero _ isPrime.ne_zero) nonzero, Finsupp.add_apply,
    isPrime.factorization_pow, Finsupp.single_eq_same,
    Nat.factorization_eq_zero_of_not_dvd notDivides, Nat.add_zero]

/-- The places kept of a product of powers of two and five are the least that
are enough for it. -/
theorem isLeast_max (twos fives : Nat) :
    IsLeast {places | 2 ^ twos * 5 ^ fives ∣ 10 ^ places} (max twos fives) := by
  refine ⟨two_pow_mul_five_pow_dvd twos fives, fun places divides => max_le ?_ ?_⟩
  · have inTwos : 2 ^ twos ∣ 2 ^ places * 5 ^ places := by
      rw [← mul_pow]
      exact (Nat.dvd_mul_right _ _).trans divides
    have coprime : Nat.Coprime (2 ^ twos) (5 ^ places) := Nat.Coprime.pow _ _ (by decide)
    exact (Nat.pow_dvd_pow_iff_le_right (by decide)).mp (coprime.dvd_of_dvd_mul_right inTwos)
  · have inFives : 5 ^ fives ∣ 2 ^ places * 5 ^ places := by
      rw [← mul_pow]
      exact (Nat.dvd_mul_left _ _).trans divides
    have coprime : Nat.Coprime (5 ^ fives) (2 ^ places) := Nat.Coprime.pow _ _ (by decide)
    exact (Nat.pow_dvd_pow_iff_le_right (by decide)).mp (coprime.dvd_of_dvd_mul_left inFives)

/-- The places kept of a denominator, by the exponents of two and five in it. -/
theorem keptPlaces_of_factorization
    {denominator : Nat}
    (positive : 0 < denominator) :
    ∃ rest : Nat, Nat.Coprime rest 10 ∧
      denominator =
        2 ^ denominator.factorization 2 * 5 ^ denominator.factorization 5 * rest ∧
      keptPlaces denominator =
        if rest = 1 then
          max (denominator.factorization 2) (denominator.factorization 5)
        else
          max (denominator.factorization 2) (denominator.factorization 5) + extraPlaces := by
  obtain ⟨twos, fives, rest, split, coprime⟩ := exists_twos_fives positive
  have odd : ¬ 2 ∣ 5 ^ fives * rest := by
    rw [← Nat.prime_two.coprime_iff_not_dvd]
    have coprimeTwo : Nat.Coprime rest 2 := coprime.coprime_dvd_right (by decide)
    exact Nat.Coprime.mul_right (Nat.Coprime.pow_right fives (by decide)) coprimeTwo.symm
  have notFive : ¬ 5 ∣ 2 ^ twos * rest := by
    rw [← Nat.prime_five.coprime_iff_not_dvd]
    have coprimeFive : Nat.Coprime rest 5 := coprime.coprime_dvd_right (by decide)
    exact Nat.Coprime.mul_right (Nat.Coprime.pow_right twos (by decide)) coprimeFive.symm
  have twos_eq : denominator.factorization 2 = twos := by
    rw [split, Nat.mul_assoc, factorization_pow_mul Nat.prime_two twos odd]
  have fives_eq : denominator.factorization 5 = fives := by
    rw [split, Nat.mul_comm (2 ^ twos), Nat.mul_assoc,
      factorization_pow_mul Nat.prime_five fives notFive]
  refine ⟨rest, coprime, ?_, ?_⟩
  · rw [twos_eq, fives_eq, split]
  · rw [twos_eq, fives_eq, split, keptPlaces_eq twos fives coprime]

/-- Of a positive denominator every base is divided out: the loop ends, with the
greatest exponent of the base that divides the denominator and with the quotient.
If the denominator divides a power of ten, the places kept of it are the least
such power.  Otherwise they are 64 more than the exponents of two and five ask
for. -/
theorem keptPlaces_minimal
    {denominator : Nat}
    (positive : 0 < denominator) :
    (∀ base, 1 < base →
      (∀ result, DivisionLoop base 0 denominator result ↔
        result = divideOut base denominator) ∧
      IsGreatest {count | base ^ count ∣ denominator} (divideOut base denominator).1 ∧
      (divideOut base denominator).2 = denominator / base ^ (divideOut base denominator).1) ∧
    ((∃ places, denominator ∣ 10 ^ places) →
      IsLeast {places | denominator ∣ 10 ^ places} (keptPlaces denominator)) ∧
    ((¬∃ places, denominator ∣ 10 ^ places) →
      keptPlaces denominator =
        max (denominator.factorization 2) (denominator.factorization 5) + 64) := by
  obtain ⟨rest, coprime, split, kept⟩ := keptPlaces_of_factorization positive
  refine ⟨fun base baseLarge => ⟨fun result => ?_, isGreatest_divideOut baseLarge positive,
    snd_divideOut baseLarge positive⟩, ?_, ?_⟩
  · exact (divisionLoop_iff baseLarge).trans (and_iff_right positive)
  · rintro ⟨places, divides⟩
    have restDivides : rest ∣ 10 ^ places := (split ▸ Nat.dvd_mul_left rest _).trans divides
    have restOne : rest = 1 := Nat.Coprime.eq_one_of_dvd (coprime.pow_right places) restDivides
    rw [restOne, Nat.mul_one] at split
    rw [kept, if_pos restOne]
    have least := isLeast_max (denominator.factorization 2) (denominator.factorization 5)
    rwa [← split] at least
  · intro noPower
    have restNotOne : rest ≠ 1 := by
      intro restOne
      rw [restOne, Nat.mul_one] at split
      exact noPower ⟨_, split ▸ two_pow_mul_five_pow_dvd _ _⟩
    rw [kept, if_neg restNotOne, extraPlaces]

theorem keptPlaces_minimal_three :
    (0 < 4000 ∧ 1 < 5 ∧
      (∀ result, DivisionLoop 5 0 4000 result ↔ result = divideOut 5 4000) ∧
      IsGreatest {count | 5 ^ count ∣ 4000} (divideOut 5 4000).1 ∧
      (divideOut 5 4000).2 = 4000 / 5 ^ (divideOut 5 4000).1) ∧
    ((∃ places, 4000 ∣ 10 ^ places) ∧
      IsLeast {places | 4000 ∣ 10 ^ places} (keptPlaces 4000) ∧ keptPlaces 4000 = 5) ∧
    (¬∃ places, 12 ∣ 10 ^ places) ∧
      keptPlaces 12 = max (Nat.factorization 12 2) (Nat.factorization 12 5) + 64 := by
  have power : ∃ places, 4000 ∣ 10 ^ places := ⟨5, by decide⟩
  have noPower : ¬∃ places, 12 ∣ 10 ^ places := by
    rintro ⟨places, divides⟩
    have threeDivides : 3 ∣ 10 ^ places := Nat.dvd_trans (by decide) divides
    exact absurd (Nat.prime_three.dvd_of_dvd_pow threeDivides) (by decide)
  exact ⟨⟨by decide, by decide, (keptPlaces_minimal (by decide)).1 5 (by decide)⟩,
    ⟨power, (keptPlaces_minimal (by decide)).2.1 power, by decide +kernel⟩,
    noPower, (keptPlaces_minimal (by decide)).2.2 noPower⟩

end Decimal
end CanonicalEquation
