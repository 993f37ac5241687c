import CanonicalEquation.Decimal.Rendering
import CanonicalEquation.Proofs.Decimal.Numeral
import CanonicalEquation.Proofs.Decimal.Places
import Mathlib.Data.Rat.Lemmas
import Mathlib.Tactic.FieldSimp

/-!
# Decimal text is exact

A number with a finite decimal expansion is written without loss: the numeral
that is written has the magnitude of the number as its value.  The numeral is
also the only one without superfluous zeros, in front or at the end, so the
text is canonical.
-/

namespace CanonicalEquation
namespace Numeral

theorem value_eq_div (numeral : Numeral) :
    numeral.value = (Nat.ofDigitChars 10 (numeral.whole ++ numeral.fraction) 0 : Rat) /
      10 ^ numeral.fraction.length := by
  rw [value, Rat.mkRat_eq_div]
  push_cast [Nat.pow_eq]
  rfl

theorem value_nonneg (numeral : Numeral) : 0 ≤ numeral.value := by
  rw [value_eq_div]
  positivity

end Numeral

namespace Decimal

/-- The numbers with a finite decimal expansion. -/
def IsFinite (value : Rat) : Prop :=
  ∃ places : Nat, value.den ∣ 10 ^ places

/-- A finite decimal expansion is a denominator without other prime factors than
two and five. -/
theorem isFinite_iff_den_eq {value : Rat} :
    IsFinite value ↔ ∃ twos fives : Nat, value.den = 2 ^ twos * 5 ^ fives := by
  constructor
  · rintro ⟨places, divides⟩
    have split : value.den ∣ 2 ^ places * 5 ^ places := by
      rw [← mul_pow]
      exact divides
    obtain ⟨powerOfTwo, powerOfFive, twoDivides, fiveDivides, product⟩ := Nat.dvd_mul.mp split
    obtain ⟨twos, _, rfl⟩ := (Nat.dvd_prime_pow Nat.prime_two).mp twoDivides
    obtain ⟨fives, _, rfl⟩ := (Nat.dvd_prime_pow Nat.prime_five).mp fiveDivides
    exact ⟨twos, fives, product.symm⟩
  · rintro ⟨twos, fives, product⟩
    exact ⟨max twos fives, product ▸ two_pow_mul_five_pow_dvd twos fives⟩

theorem IsFinite.zero : IsFinite 0 := ⟨0, by decide⟩

theorem IsFinite.one : IsFinite 1 := ⟨0, by decide⟩

theorem IsFinite.mul
    {first second : Rat}
    (firstFinite : IsFinite first)
    (secondFinite : IsFinite second) : IsFinite (first * second) := by
  obtain ⟨firstPlaces, firstDivides⟩ := firstFinite
  obtain ⟨secondPlaces, secondDivides⟩ := secondFinite
  refine ⟨firstPlaces + secondPlaces, ?_⟩
  calc
    (first * second).den ∣ first.den * second.den := Rat.mul_den_dvd first second
    _ ∣ 10 ^ firstPlaces * 10 ^ secondPlaces := mul_dvd_mul firstDivides secondDivides
    _ = 10 ^ (firstPlaces + secondPlaces) := (pow_add 10 _ _).symm

theorem IsFinite.add
    {first second : Rat}
    (firstFinite : IsFinite first)
    (secondFinite : IsFinite second) : IsFinite (first + second) := by
  obtain ⟨firstPlaces, firstDivides⟩ := firstFinite
  obtain ⟨secondPlaces, secondDivides⟩ := secondFinite
  refine ⟨firstPlaces + secondPlaces, ?_⟩
  calc
    (first + second).den ∣ first.den * second.den := Rat.add_den_dvd first second
    _ ∣ 10 ^ firstPlaces * 10 ^ secondPlaces := mul_dvd_mul firstDivides secondDivides
    _ = 10 ^ (firstPlaces + secondPlaces) := (pow_add 10 _ _).symm

theorem IsFinite.neg
    {value : Rat}
    (finite : IsFinite value) : IsFinite (-value) := by
  obtain ⟨places, divides⟩ := finite
  exact ⟨places, by rwa [Rat.neg_den]⟩

theorem IsFinite.abs
    {value : Rat}
    (finite : IsFinite value) : IsFinite |value| := by
  rcases abs_choice value with equal | equal <;> rw [equal]
  · exact finite
  · exact finite.neg

/-- The magnitude that terms are made of is the absolute value. -/
theorem abs_eq_abs (value : Rat) : value.abs = |value| := by
  rcases le_total 0 value with nonneg | nonpos
  · rw [Rat.abs_of_nonneg nonneg, abs_of_nonneg nonneg]
  · rw [Rat.abs_of_nonpos nonpos, abs_of_nonpos nonpos]

/-- Every numeral writes a number with a finite decimal expansion. -/
theorem isFinite_numeralValue (numeral : Numeral) : IsFinite numeral.value := by
  refine ⟨numeral.fraction.length, ?_⟩
  have divides := Rat.den_dvd
    (Nat.ofDigitChars 10 (numeral.whole ++ numeral.fraction) 0 : Int)
    (10 ^ numeral.fraction.length : Int)
  have equal : numeral.value = Rat.divInt
      (Nat.ofDigitChars 10 (numeral.whole ++ numeral.fraction) 0 : Int)
      (10 ^ numeral.fraction.length : Int) := by
    rw [Numeral.value, Rat.mkRat_eq_divInt]
    norm_cast
  rw [equal]
  exact_mod_cast divides

theorem abs_eq_natAbs_div (value : Rat) : |value| = (value.num.natAbs : Rat) / value.den := by
  rw [Rat.abs_def, Rat.divInt_eq_div, Int.cast_natCast, Int.cast_natCast]

/-- The digits that are written, as an integer in units of the last place. -/
theorem scaledMagnitude_eq
    {value : Rat}
    (finite : IsFinite value) :
    (scaledMagnitude value : Rat) = |value| * 10 ^ keptPlaces value.den := by
  obtain ⟨places, divides⟩ := finite
  obtain ⟨cofactor, power⟩ := dvd_ten_pow_keptPlaces divides
  have denPositive : 0 < value.den := value.den_pos
  have scaled : scaledMagnitude value = value.num.natAbs * cofactor := by
    have unfolded : scaledMagnitude value =
        (2 * (value.num.natAbs * 10 ^ keptPlaces value.den) + value.den) /
          (2 * value.den) := rfl
    rw [unfolded, power]
    have rearranged : 2 * (value.num.natAbs * (value.den * cofactor)) + value.den =
        value.den + (2 * value.den) * (value.num.natAbs * cofactor) := by ring
    rw [rearranged, Nat.add_mul_div_left _ _ (by omega), Nat.div_eq_of_lt (by omega),
      Nat.zero_add]
  have powerCast : (10 : Rat) ^ keptPlaces value.den = value.den * cofactor := by
    exact_mod_cast power
  have magnitude : |value| * value.den = value.num.natAbs := by
    have denNeZero : (value.den : Rat) ≠ 0 := by exact_mod_cast denPositive.ne'
    rw [abs_eq_natAbs_div, div_mul_cancel₀ _ denNeZero]
  rw [scaled, powerCast, ← mul_assoc, magnitude]
  push_cast
  ring

/-! ## The numeral that is written -/

end Decimal

/-- A numeral without superfluous zeros: none in front of another digit of the
whole part, and none at the end of the fraction. -/
structure Numeral.IsCanonical (numeral : Numeral) : Prop where
  whole_start : numeral.whole = ['0'] ∨ numeral.whole.head? ≠ some '0'
  fraction_end : numeral.fraction.getLast? ≠ some '0'

namespace Decimal

/-- All the digits of a number, those behind the point included, filled up
with zeros at the front. -/
def paddedDigits (value : Rat) : List Char :=
  (Nat.toDigits 10 (scaledMagnitude value)).leftpad (keptPlaces value.den + 1) '0'

theorem whole_magnitudeNumeral (value : Rat) :
    (magnitudeNumeral value).whole =
      (paddedDigits value).take ((paddedDigits value).length - keptPlaces value.den) := rfl

theorem fraction_magnitudeNumeral (value : Rat) :
    (magnitudeNumeral value).fraction = trimZeros
      ((paddedDigits value).drop ((paddedDigits value).length - keptPlaces value.den)) := rfl

theorem keptPlaces_lt_length_paddedDigits (value : Rat) :
    keptPlaces value.den < (paddedDigits value).length := by
  rw [paddedDigits, List.length_leftpad]
  omega

theorem isDigit_of_mem_paddedDigits
    (value : Rat)
    {c : Char}
    (member : c ∈ paddedDigits value) : c.isDigit = true := by
  rw [paddedDigits, List.leftpad, List.mem_append] at member
  rcases member with padding | digit
  · obtain rfl := List.eq_of_mem_replicate padding
    rfl
  · exact Nat.isDigit_of_mem_toDigits (by decide) (by decide) digit

/-- Padding does not change the integer that the digits write. -/
theorem ofDigitChars_paddedDigits (value : Rat) :
    Nat.ofDigitChars 10 (paddedDigits value) 0 = scaledMagnitude value := by
  rw [paddedDigits, List.leftpad, Nat.ofDigitChars_append, Nat.ofDigitChars_replicate_zero,
    Nat.mul_zero, Nat.ofDigitChars_ten_toDigits]

/-- Digits are trimmed by zeros only. -/
theorem trimZeros_append (digits : List Char) :
    ∃ count, digits = trimZeros digits ++ List.replicate count '0' := by
  obtain ⟨count, reversed⟩ := Numeral.exists_zeros_append digits.reverse
  refine ⟨count, ?_⟩
  calc
    digits = digits.reverse.reverse := (List.reverse_reverse digits).symm
    _ = trimZeros digits ++ List.replicate count '0' := by
        rw [reversed, List.reverse_append, List.reverse_replicate]
        rfl

theorem getLast?_trimZeros (digits : List Char) :
    (trimZeros digits).getLast? ≠ some '0' := by
  rw [trimZeros, List.getLast?_reverse]
  intro zero
  have notDropped := List.head?_dropWhile_not (· == '0') digits.reverse
  rw [zero] at notDropped
  simp at notDropped

/-- Only the digits of zero begin with a zero. -/
theorem eq_zero_of_head?_toDigits
    {number : Nat}
    (zero : (Nat.toDigits 10 number).head? = some '0') : number = 0 := by
  induction number using Nat.strong_induction_on with
  | _ number inductionHypothesis =>
      by_cases small : number < 10
      · rw [Nat.toDigits_of_lt_base small, List.head?_cons, Option.some.injEq] at zero
        have digit := Nat.toNat_digitChar_sub_48_of_lt_ten small
        rw [zero] at digit
        simpa using digit.symm
      · rw [Nat.toDigits_of_base_le (by decide) (by omega),
          List.head?_append_of_ne_nil _ Nat.toDigits_ne_nil] at zero
        have := inductionHypothesis (number / 10) (by omega) zero
        omega

/-- The padded digits begin with a zero only if a single digit stands in front
of the point. -/
theorem length_paddedDigits_of_head?
    {value : Rat}
    (zero : (paddedDigits value).head? = some '0') :
    (paddedDigits value).length = keptPlaces value.den + 1 := by
  have length : (paddedDigits value).length =
      max (keptPlaces value.den + 1) (Nat.toDigits 10 (scaledMagnitude value)).length :=
    List.length_leftpad ..
  by_contra long
  have notPadded :
      keptPlaces value.den + 1 - (Nat.toDigits 10 (scaledMagnitude value)).length = 0 := by
    omega
  rw [paddedDigits, List.leftpad, notPadded, List.replicate_zero, List.nil_append] at zero
  rw [eq_zero_of_head?_toDigits zero, Nat.toDigits_zero, List.length_singleton] at length
  omega

/-- The digits in front of the point and those behind it. -/
theorem paddedDigits_split (value : Rat) :
    ∃ count,
      paddedDigits value = (magnitudeNumeral value).whole ++
        (magnitudeNumeral value).fraction ++ List.replicate count '0' ∧
      (magnitudeNumeral value).fraction.length + count = keptPlaces value.den := by
  have long := keptPlaces_lt_length_paddedDigits value
  obtain ⟨count, equal⟩ := trimZeros_append
    ((paddedDigits value).drop ((paddedDigits value).length - keptPlaces value.den))
  rw [← fraction_magnitudeNumeral] at equal
  refine ⟨count, ?_, ?_⟩
  · rw [List.append_assoc, ← equal, whole_magnitudeNumeral, List.take_append_drop]
  · have lengths := congrArg List.length equal
    rw [List.length_drop, List.length_append, List.length_replicate] at lengths
    omega

theorem wellFormed_magnitudeNumeral (value : Rat) : (magnitudeNumeral value).WellFormed := by
  have long := keptPlaces_lt_length_paddedDigits value
  obtain ⟨count, split, _⟩ := paddedDigits_split value
  refine ⟨?_, ?_, ?_⟩
  · intro empty
    have lengths := congrArg List.length empty
    rw [whole_magnitudeNumeral, List.length_take, List.length_nil] at lengths
    omega
  · intro c member
    apply isDigit_of_mem_paddedDigits value
    rw [split]
    simp [member]
  · intro c member
    apply isDigit_of_mem_paddedDigits value
    rw [split]
    simp [member]

/-- The numeral that is written is free of superfluous zeros. -/
theorem isCanonical_magnitudeNumeral (value : Rat) : (magnitudeNumeral value).IsCanonical := by
  refine ⟨?_, getLast?_trimZeros _⟩
  by_cases zero : (magnitudeNumeral value).whole.head? = some '0'
  · left
    have wholeNotEmpty := (wellFormed_magnitudeNumeral value).whole_ne_nil
    obtain ⟨count, split, _⟩ := paddedDigits_split value
    have paddedZero : (paddedDigits value).head? = some '0' := by
      rw [split, List.append_assoc, List.head?_append_of_ne_nil _ wholeNotEmpty, zero]
    have single : (magnitudeNumeral value).whole.length = 1 := by
      rw [whole_magnitudeNumeral, List.length_take, length_paddedDigits_of_head? paddedZero]
      omega
    obtain ⟨digit, equal⟩ := List.length_eq_one_iff.mp single
    rw [equal] at zero ⊢
    rw [Option.some.inj zero]
  · exact Or.inr zero

/-- The value of the numeral that is written, in units of the last kept place. -/
theorem value_magnitudeNumeral (value : Rat) :
    (magnitudeNumeral value).value * 10 ^ keptPlaces value.den = scaledMagnitude value := by
  obtain ⟨count, split, places⟩ := paddedDigits_split value
  have digits : 10 ^ count * Nat.ofDigitChars 10
      ((magnitudeNumeral value).whole ++ (magnitudeNumeral value).fraction) 0 =
      scaledMagnitude value := by
    rw [← ofDigitChars_paddedDigits, split, Nat.ofDigitChars_append _ (m := List.replicate _ _),
      Nat.ofDigitChars_replicate_zero]
  have powerNeZero : ((10 : Rat) ^ (magnitudeNumeral value).fraction.length) ≠ 0 := by positivity
  rw [Numeral.value_eq_div, ← digits, ← places, pow_add]
  push_cast
  field_simp

/-- A number with a finite decimal expansion is written exactly. -/
theorem value_magnitudeNumeral_of_isFinite
    {value : Rat}
    (finite : IsFinite value) : (magnitudeNumeral value).value = |value| := by
  have powerNeZero : ((10 : Rat) ^ keptPlaces value.den) ≠ 0 := by positivity
  apply mul_right_cancel₀ powerNeZero
  rw [value_magnitudeNumeral, scaledMagnitude_eq finite]

theorem render_of_nonneg
    {value : Rat}
    (nonneg : 0 ≤ value) : render value = String.ofList (magnitudeNumeral value).chars := by
  have notNegative : ¬ (value < 0 ∧ magnitudeNumeral value ≠ zeroNumeral) := fun negative =>
    absurd negative.1 (not_lt.mpr nonneg)
  rw [render, chars, if_neg notNegative]

/-- A text is read as a number exactly when it is a numeral of that number. -/
theorem ofText?_eq_some_iff
    {text : String}
    {value : Rat} :
    ofText? text = some value ↔
      ∃ numeral : Numeral, numeral.WellFormed ∧ text = String.ofList numeral.chars ∧
        numeral.value = value := by
  rw [ofText?, Option.map_eq_some_iff]
  constructor
  · rintro ⟨numeral, read, rfl⟩
    obtain ⟨wellFormed, equal⟩ := Numeral.ofChars?_eq_some_iff.mp read
    exact ⟨numeral, wellFormed, by rw [equal, String.ofList_toList], rfl⟩
  · rintro ⟨numeral, wellFormed, rfl, rfl⟩
    refine ⟨numeral, Numeral.ofChars?_eq_some_iff.mpr ⟨wellFormed, ?_⟩, rfl⟩
    rw [String.toList_ofList]

/-- A number with a finite decimal expansion is read back from its text. -/
theorem ofText?_render
    {value : Rat}
    (nonneg : 0 ≤ value)
    (finite : IsFinite value) : ofText? (render value) = some value :=
  ofText?_eq_some_iff.mpr ⟨magnitudeNumeral value, wellFormed_magnitudeNumeral value,
    render_of_nonneg nonneg, by
      rw [value_magnitudeNumeral_of_isFinite finite, abs_of_nonneg nonneg]⟩

end Decimal
end CanonicalEquation
