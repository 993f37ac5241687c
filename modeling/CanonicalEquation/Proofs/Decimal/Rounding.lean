import CanonicalEquation.Proofs.Term.Reading
import Mathlib.Tactic.Linarith

/-!
# Rounded decimals

The numeral that writes a number differs from its magnitude by at most half a
unit of the last place that is kept.  So a number without a finite decimal
expansion is rounded, and whatever the rounding carries or leaves, its text is a
canonical numeral behind at most one sign, and is read back as a constant.
-/

namespace CanonicalEquation
namespace Decimal

/-- A quotient that is rounded to the nearest integer, a half upwards, is off by
at most one half. -/
theorem abs_roundedQuotient_sub_le
    (dividend : Nat)
    {divisor : Nat}
    (positive : 0 < divisor) :
    |((2 * dividend + divisor) / (2 * divisor) : Nat) - (dividend / divisor : Rat)| ≤ 1 / 2 := by
  have doublePositive : (0 : Rat) < 2 * divisor := by positivity
  have shifted : (2 * dividend + divisor : Rat) / (2 * divisor) = dividend / divisor + 1 / 2 := by
    field_simp
  have lower : 2 * divisor * ((2 * dividend + divisor) / (2 * divisor)) ≤
      2 * dividend + divisor := Nat.mul_div_le _ _
  have upper : 2 * dividend + divisor <
      2 * divisor * ((2 * dividend + divisor) / (2 * divisor) + 1) :=
    Nat.lt_mul_div_succ _ (by omega)
  generalize (2 * dividend + divisor) / (2 * divisor) = quotient at lower upper
  have notAbove : (quotient : Rat) ≤ (2 * dividend + divisor) / (2 * divisor) := by
    rw [le_div_iff₀ doublePositive, mul_comm]
    exact_mod_cast lower
  have below : (2 * dividend + divisor : Rat) / (2 * divisor) < quotient + 1 := by
    rw [div_lt_iff₀ doublePositive, mul_comm (quotient + 1 : Rat)]
    exact_mod_cast upper
  rw [abs_le]
  constructor <;> linarith

theorem abs_scaledMagnitude_sub_le (value : Rat) :
    |(scaledMagnitude value : Rat) - |value| * 10 ^ keptPlaces value.den| ≤ 1 / 2 := by
  have scaled : |value| * 10 ^ keptPlaces value.den =
      ((value.num.natAbs * 10 ^ keptPlaces value.den : Nat) : Rat) / value.den := by
    rw [abs_eq_natAbs_div]
    push_cast
    ring
  rw [scaled]
  exact abs_roundedQuotient_sub_le _ value.den_pos

/-- What is written differs from the magnitude of a number by at most half a unit
of the last kept place. -/
theorem abs_value_magnitudeNumeral_sub_le (value : Rat) :
    |(magnitudeNumeral value).value - (|value|)| ≤ 1 / 2 * (10 ^ keptPlaces value.den)⁻¹ := by
  have powerPositive : (0 : Rat) < 10 ^ keptPlaces value.den := by positivity
  rw [← div_eq_mul_inv, le_div_iff₀ powerPositive]
  calc
    |(magnitudeNumeral value).value - (|value|)| * 10 ^ keptPlaces value.den =
        |((magnitudeNumeral value).value - |value|) * 10 ^ keptPlaces value.den| := by
      rw [abs_mul, abs_of_pos powerPositive]
    _ = |(scaledMagnitude value : Rat) - |value| * 10 ^ keptPlaces value.den| := by
      rw [sub_mul, value_magnitudeNumeral]
    _ ≤ 1 / 2 := abs_scaledMagnitude_sub_le value

/-! ## The text of a number -/

/-- A numeral behind at most one sign is read as a constant. -/
theorem read_constant
    (sign : Option Sign)
    {numeral : Numeral}
    (wellFormed : numeral.WellFormed) :
    Term.read (String.ofList (Term.signChars sign ++ numeral.chars)) =
      .ok (Term.constant (sign.getD .plus) numeral.value) := by
  have constant := Monomial.wellFormed_constant wellFormed
  have solid := (Term.solid_signChars_append sign constant).isTermBlank
  have read := (Term.ofChars?_eq_some_iff solid).mpr ⟨_, _, constant, rfl, rfl⟩
  rw [Monomial.chars_constant] at read
  rw [Term.read, String.toList_ofList, read]
  rfl

theorem ofList_chars_eq_zero_iff
    {numeral : Numeral}
    (wellFormed : numeral.WellFormed) :
    String.ofList numeral.chars = "0" ↔ numeral = zeroNumeral := by
  constructor
  · intro zero
    have first := Numeral.ofChars?_eq_some_iff.mpr ⟨wellFormed, String.ofList_injective zero⟩
    have second := Numeral.ofChars?_eq_some_iff.mpr
      ⟨Numeral.wellFormed_digit (c := '0') rfl, rfl⟩
    exact Option.some.inj (first.symm.trans second)
  · rintro rfl
    rfl

/-- The text of a number is its numeral, behind a `-` if the number is negative
and the numeral is not `0`. -/
theorem render_eq (value : Rat) :
    render value =
      (if value < 0 ∧ String.ofList (magnitudeNumeral value).chars ≠ "0" then "-" else "") ++
        String.ofList (magnitudeNumeral value).chars := by
  simp only [render, chars, ne_eq, ofList_chars_eq_zero_iff (wellFormed_magnitudeNumeral value)]
  split
  · exact @String.ofList_append ['-'] _
  · exact String.empty_append.symm

/-- The text of a number is read back as a constant with the sign that is
written. -/
theorem read_render (value : Rat) :
    Term.read (render value) =
      .ok (Term.constant
        (if value < 0 ∧ String.ofList (magnitudeNumeral value).chars ≠ "0" then .minus else .plus)
        (magnitudeNumeral value).value) := by
  have wellFormed := wellFormed_magnitudeNumeral value
  rw [render_eq]
  split
  · exact @String.ofList_append ['-'] _ ▸ read_constant (some .minus) wellFormed
  · exact String.empty_append.symm ▸ read_constant none wellFormed

/-- Zero is never written with a sign. -/
theorem render_ne_negative_zero (value : Rat) : render value ≠ "-0" := by
  rw [render_eq]
  split
  next negative =>
    intro equal
    exact negative.2 ((String.append_right_inj "-").mp equal)
  · rw [String.empty_append]
    intro equal
    have read := Numeral.ofChars?_eq_some_iff.mpr
      ⟨wellFormed_magnitudeNumeral value, String.ofList_injective equal⟩
    have notNumeral : Numeral.ofChars? ['-', '0'] = none := by decide
    exact nomatch notNumeral.symm.trans read

/-- A number whose denominator has a factor other than two and five is written as
a canonical numeral, behind a `-` exactly if the number is negative and the
numeral is not `0`.  The numeral is off by at most half a unit of the place that
lies 64 behind those that the factors two and five ask for. -/
theorem render_rounded
    {value : Rat}
    {twos fives rest : Nat}
    (den_eq : value.den = 2 ^ twos * 5 ^ fives * rest)
    (coprime : Nat.Coprime rest 10)
    (large : 1 < rest) :
    ∃ (numeral : Numeral) (written : String),
      numeral.WellFormed ∧ numeral.IsCanonical ∧ written = String.ofList numeral.chars ∧
      ofText? written = some numeral.value ∧
      |numeral.value - (|value|)| ≤ 1 / 2 * (10 ^ (max twos fives + 64))⁻¹ ∧
      render value = (if value < 0 ∧ written ≠ "0" then "-" else "") ++ written ∧
      render value ≠ "-0" ∧
      Term.read (render value) =
        .ok (Term.constant (if value < 0 ∧ written ≠ "0" then .minus else .plus)
          numeral.value) := by
  have wellFormed := wellFormed_magnitudeNumeral value
  have places : keptPlaces value.den = max twos fives + 64 := by
    rw [den_eq, keptPlaces_eq twos fives coprime, if_neg (Nat.ne_of_gt large), extraPlaces]
  refine ⟨magnitudeNumeral value, _, wellFormed, isCanonical_magnitudeNumeral value, rfl,
    ofText?_eq_some_iff.mpr ⟨_, wellFormed, rfl, rfl⟩, ?_, render_eq value,
    render_ne_negative_zero value, read_render value⟩
  rw [← places]
  exact abs_value_magnitudeNumeral_sub_le value

/-- All the nines of a number just below one in magnitude are carried into the
whole part. -/
theorem render_rounded_carry :
    let value : Rat := mkRat (-10 ^ 65) (10 ^ 65 + 1)
    value.den = 2 ^ 0 * 5 ^ 0 * (10 ^ 65 + 1) ∧ Nat.Coprime (10 ^ 65 + 1) 10 ∧
      1 < 10 ^ 65 + 1 ∧ render value = "-1" ∧
      ∃ (numeral : Numeral) (written : String),
        numeral.WellFormed ∧ numeral.IsCanonical ∧ written = String.ofList numeral.chars ∧
        ofText? written = some numeral.value ∧
        |numeral.value - (|value|)| ≤ 1 / 2 * (10 ^ (max 0 0 + 64))⁻¹ ∧
        render value = (if value < 0 ∧ written ≠ "0" then "-" else "") ++ written ∧
        render value ≠ "-0" ∧
        Term.read (render value) =
          .ok (Term.constant (if value < 0 ∧ written ≠ "0" then .minus else .plus)
            numeral.value) := by
  intro value
  have den_eq : value.den = 2 ^ 0 * 5 ^ 0 * (10 ^ 65 + 1) := by decide +kernel
  have coprime : Nat.Coprime (10 ^ 65 + 1) 10 := by decide +kernel
  have large : 1 < 10 ^ 65 + 1 := by decide
  exact ⟨den_eq, coprime, large, by decide +kernel, render_rounded den_eq coprime large⟩

end Decimal
end CanonicalEquation
