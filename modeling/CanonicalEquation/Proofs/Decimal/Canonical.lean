import CanonicalEquation.Proofs.Decimal.Rendering
import Mathlib.Data.List.DropRight

/-!
# Canonical numerals

A zero in front of another digit and a zero at the end of a fraction change a
numeral, but not the number that it writes.  Two numerals write the same number
exactly when they are the same without such zeros.  The numeral that writes a
number has none, so it is every numeral of that number without them.
-/

namespace CanonicalEquation
namespace Numeral

/-! ## Superfluous zeros -/

/-- Digits without the zeros in front of another digit. -/
def dropLeadingZeros : List Char → List Char
  | '0' :: next :: rest => dropLeadingZeros (next :: rest)
  | digits => digits

/-- A numeral without its superfluous zeros: those in front of another digit of
the whole part, and those at the end of the fraction. -/
def trimmed (numeral : Numeral) : Numeral :=
  ⟨dropLeadingZeros numeral.whole, numeral.fraction.rdropWhile (· == '0')⟩

/-- A numeral with zeros in front of its whole part and zeros behind its
fraction. -/
def padded (front back : Nat) (numeral : Numeral) : Numeral :=
  ⟨List.replicate front '0' ++ numeral.whole, numeral.fraction ++ List.replicate back '0'⟩

theorem dropLeadingZeros_of_head?
    {digits : List Char}
    (notZero : digits.head? ≠ some '0') : dropLeadingZeros digits = digits := by
  unfold dropLeadingZeros
  split
  · exact absurd rfl notZero
  · rfl

theorem dropLeadingZeros_replicate_append
    (count : Nat)
    {digits : List Char}
    (nonempty : digits ≠ []) :
    dropLeadingZeros (List.replicate count '0' ++ digits) = dropLeadingZeros digits := by
  induction count with
  | zero => rfl
  | succ count inductionHypothesis =>
      obtain ⟨next, rest, equal⟩ := List.exists_cons_of_ne_nil
        (List.append_ne_nil_of_right_ne_nil (List.replicate count '0') nonempty)
      rw [List.replicate_succ, List.cons_append, ← inductionHypothesis, equal, dropLeadingZeros]

/-- Nothing but zeros is dropped in front of digits, and the last digit stays. -/
theorem exists_dropLeadingZeros
    {digits : List Char}
    (nonempty : digits ≠ []) :
    ∃ count, digits = List.replicate count '0' ++ dropLeadingZeros digits ∧
      dropLeadingZeros digits ≠ [] ∧
      (dropLeadingZeros digits = ['0'] ∨ (dropLeadingZeros digits).head? ≠ some '0') := by
  induction digits with
  | nil => exact absurd rfl nonempty
  | cons first rest inductionHypothesis =>
      by_cases zero : first = '0'
      · subst zero
        cases rest with
        | nil => exact ⟨0, rfl, nonempty, .inl rfl⟩
        | cons next others =>
            obtain ⟨count, equal, kept, start⟩ := inductionHypothesis (List.cons_ne_nil _ _)
            refine ⟨count + 1, ?_, kept, start⟩
            rw [List.replicate_succ, List.cons_append, dropLeadingZeros, ← equal]
      · have notZero : (first :: rest).head? ≠ some '0' := fun equal =>
          zero (Option.some.inj equal)
        rw [dropLeadingZeros_of_head? notZero]
        exact ⟨0, rfl, nonempty, .inr notZero⟩

theorem rdropWhile_append_replicate
    (digits : List Char)
    (count : Nat) :
    (digits ++ List.replicate count '0').rdropWhile (· == '0') =
      digits.rdropWhile (· == '0') := by
  rw [List.rdropWhile, List.reverse_append, List.reverse_replicate,
    List.dropWhile_append_of_pos (by simp)]
  rfl

theorem trimmed_padded
    (front back : Nat)
    {numeral : Numeral}
    (wellFormed : numeral.WellFormed) : (numeral.padded front back).trimmed = numeral.trimmed := by
  rw [trimmed, padded, dropLeadingZeros_replicate_append front wellFormed.whole_ne_nil,
    rdropWhile_append_replicate]
  rfl

/-- Without its superfluous zeros a numeral is canonical, and it is its trimmed
form with zeros in front and at the end. -/
theorem exists_padded_trimmed
    {numeral : Numeral}
    (wellFormed : numeral.WellFormed) :
    numeral.trimmed.WellFormed ∧ numeral.trimmed.IsCanonical ∧
      ∃ front back, numeral = numeral.trimmed.padded front back := by
  obtain ⟨front, wholeSplit, kept, start⟩ := exists_dropLeadingZeros wellFormed.whole_ne_nil
  obtain ⟨back, fractionSplit⟩ := Decimal.trimZeros_append numeral.fraction
  have split : numeral = numeral.trimmed.padded front back := by
    conv_lhs => rw [← show (⟨numeral.whole, numeral.fraction⟩ : Numeral) = numeral from rfl,
      wholeSplit, fractionSplit]
    rfl
  refine ⟨⟨kept, fun c member => ?_, fun c member => ?_⟩,
    ⟨start, Decimal.getLast?_trimZeros numeral.fraction⟩, front, back, split⟩
  · apply wellFormed.whole_digits
    rw [split]
    exact List.mem_append_right _ member
  · apply wellFormed.fraction_digits
    rw [split]
    exact List.mem_append_left _ member

example : trimmed ⟨['0', '0', '7'], ['5', '0']⟩ = ⟨['7'], ['5']⟩ := by decide

theorem trimmed_of_isCanonical
    {numeral : Numeral}
    (canonical : numeral.IsCanonical) : numeral.trimmed = numeral := by
  have whole : dropLeadingZeros numeral.whole = numeral.whole := by
    rcases canonical.whole_start with zero | notZero
    · rw [zero]
      rfl
    · exact dropLeadingZeros_of_head? notZero
  have fraction : numeral.fraction.rdropWhile (· == '0') = numeral.fraction := by
    rw [List.rdropWhile_eq_self_iff]
    intro nonempty isZero
    apply canonical.fraction_end
    rw [List.getLast?_eq_some_getLast nonempty, beq_iff_eq.mp isZero]
  rw [trimmed, whole, fraction]

/-! ## Numerals of the same number -/

theorem value_padded
    (front back : Nat)
    (numeral : Numeral) : (numeral.padded front back).value = numeral.value := by
  have digits : Nat.ofDigitChars 10
      ((numeral.padded front back).whole ++ (numeral.padded front back).fraction) 0 =
        10 ^ back * Nat.ofDigitChars 10 (numeral.whole ++ numeral.fraction) 0 := by
    rw [padded, ← List.append_assoc, List.append_assoc (List.replicate front '0'),
      Nat.ofDigitChars_append, Nat.ofDigitChars_append, Nat.ofDigitChars_replicate_zero,
      Nat.ofDigitChars_replicate_zero, Nat.mul_zero]
  rw [value_eq_div, value_eq_div, digits, padded, List.length_append, List.length_replicate,
    pow_add]
  push_cast
  field_simp

/-- As many digits that write the same number are the same digits. -/
theorem eq_of_ofDigitChars_eq
    {first second : List Char}
    (firstDigits : ∀ c ∈ first, c.isDigit = true)
    (secondDigits : ∀ c ∈ second, c.isDigit = true)
    (lengths : first.length = second.length)
    (equal : Nat.ofDigitChars 10 first 0 = Nat.ofDigitChars 10 second 0) : first = second := by
  obtain ⟨firstCount, firstSplit⟩ := exists_zeros_append first
  obtain ⟨secondCount, secondSplit⟩ := exists_zeros_append second
  have significant := (ofDigitChars_eq_iff firstDigits secondDigits).mp equal
  have counts : firstCount = secondCount := by
    rw [firstSplit, secondSplit, significant, List.length_append, List.length_append,
      List.length_replicate, List.length_replicate] at lengths
    omega
  rw [firstSplit, secondSplit, significant, counts]

/-- Numerals of the same shape that write the same number are the same. -/
theorem eq_of_value_eq
    {first second : Numeral}
    (firstWellFormed : first.WellFormed)
    (secondWellFormed : second.WellFormed)
    (wholeLengths : first.whole.length = second.whole.length)
    (fractionLengths : first.fraction.length = second.fraction.length)
    (equal : first.value = second.value) : first = second := by
  have powerNeZero : ((10 : Rat) ^ second.fraction.length) ≠ 0 := by positivity
  have numbers : Nat.ofDigitChars 10 (first.whole ++ first.fraction) 0 =
      Nat.ofDigitChars 10 (second.whole ++ second.fraction) 0 := by
    rw [value_eq_div, value_eq_div, fractionLengths, div_left_inj' powerNeZero] at equal
    exact_mod_cast equal
  have digits : first.whole ++ first.fraction = second.whole ++ second.fraction :=
    eq_of_ofDigitChars_eq
      (List.forall_mem_append.mpr ⟨firstWellFormed.whole_digits, firstWellFormed.fraction_digits⟩)
      (List.forall_mem_append.mpr ⟨secondWellFormed.whole_digits, secondWellFormed.fraction_digits⟩)
      (by rw [List.length_append, List.length_append, wholeLengths, fractionLengths]) numbers
  obtain ⟨wholes, fractions⟩ := List.append_inj digits wholeLengths
  exact Numeral.mk.injEq .. ▸ ⟨wholes, fractions⟩

theorem wellFormed_padded
    (front back : Nat)
    {numeral : Numeral}
    (wellFormed : numeral.WellFormed) : (numeral.padded front back).WellFormed := by
  have zeros : ∀ count, ∀ c ∈ List.replicate count '0', c.isDigit = true := by
    intro count c member
    rw [List.eq_of_mem_replicate member]
    rfl
  exact ⟨List.append_ne_nil_of_right_ne_nil _ wellFormed.whole_ne_nil,
    List.forall_mem_append.mpr ⟨zeros front, wellFormed.whole_digits⟩,
    List.forall_mem_append.mpr ⟨wellFormed.fraction_digits, zeros back⟩⟩

/-- Numerals write the same number exactly when they differ in superfluous zeros
only. -/
theorem value_eq_iff_trimmed_eq
    {first second : Numeral}
    (firstWellFormed : first.WellFormed)
    (secondWellFormed : second.WellFormed) :
    first.value = second.value ↔ first.trimmed = second.trimmed := by
  constructor
  · intro equal
    -- With zeros, both get the longer whole part and the longer fraction.
    have padded : first.padded (second.whole.length - first.whole.length)
          (second.fraction.length - first.fraction.length) =
        second.padded (first.whole.length - second.whole.length)
          (first.fraction.length - second.fraction.length) := by
      apply eq_of_value_eq (wellFormed_padded _ _ firstWellFormed)
        (wellFormed_padded _ _ secondWellFormed)
      · simp only [Numeral.padded, List.length_append, List.length_replicate]
        omega
      · simp only [Numeral.padded, List.length_append, List.length_replicate]
        omega
      · rw [value_padded, value_padded, equal]
    rw [← trimmed_padded _ _ firstWellFormed, padded, trimmed_padded _ _ secondWellFormed]
  · intro equal
    obtain ⟨_, _, firstFront, firstBack, firstSplit⟩ := exists_padded_trimmed firstWellFormed
    obtain ⟨_, _, secondFront, secondBack, secondSplit⟩ := exists_padded_trimmed secondWellFormed
    rw [firstSplit, secondSplit, value_padded, value_padded, equal]

end Numeral

namespace Decimal

/-- The number of a numeral is written as that numeral without its superfluous
zeros. -/
theorem magnitudeNumeral_value
    {numeral : Numeral}
    (wellFormed : numeral.WellFormed) :
    magnitudeNumeral numeral.value = numeral.trimmed := by
  have exactly : (magnitudeNumeral numeral.value).value = numeral.value := by
    rw [value_magnitudeNumeral_of_isFinite (isFinite_numeralValue numeral),
      abs_of_nonneg numeral.value_nonneg]
  rw [← Numeral.trimmed_of_isCanonical (isCanonical_magnitudeNumeral numeral.value)]
  exact (Numeral.value_eq_iff_trimmed_eq (wellFormed_magnitudeNumeral _) wellFormed).mp exactly

/-- A number that is not negative and has a finite decimal expansion is read back
from its text.  The text of the number that a numeral writes is that numeral
without its superfluous zeros, so numerals are written alike exactly when their
numbers are equal. -/
theorem render_exact_and_canonical :
    (∀ value : Rat, 0 ≤ value → (∃ twos fives : Nat, value.den = 2 ^ twos * 5 ^ fives) →
      ofText? (render value) = some value) ∧
    (∀ text value, ofText? text = some value →
      ∃ numeral : Numeral, numeral.WellFormed ∧ text = String.ofList numeral.chars ∧
        render value = String.ofList numeral.trimmed.chars) ∧
    ∀ first second firstValue secondValue,
      ofText? first = some firstValue → ofText? second = some secondValue →
        (render firstValue = render secondValue ↔ firstValue = secondValue) := by
  have readBack : ∀ text value, ofText? text = some value →
      ofText? (render value) = some value := by
    intro text value read
    obtain ⟨numeral, _, _, rfl⟩ := ofText?_eq_some_iff.mp read
    exact ofText?_render numeral.value_nonneg (isFinite_numeralValue numeral)
  refine ⟨fun value nonneg factors => ?_, fun text value read => ?_, ?_⟩
  · exact ofText?_render nonneg (isFinite_iff_den_eq.mpr factors)
  · obtain ⟨numeral, wellFormed, written, rfl⟩ := ofText?_eq_some_iff.mp read
    refine ⟨numeral, wellFormed, written, ?_⟩
    rw [render_of_nonneg numeral.value_nonneg, magnitudeNumeral_value wellFormed]
  · intro first second firstValue secondValue firstRead secondRead
    refine ⟨fun equal => ?_, congrArg render⟩
    apply Option.some.inj
    rw [← readBack first firstValue firstRead, equal, readBack second secondValue secondRead]

theorem render_exact_and_canonical_zeros :
    (0 ≤ (1 / 8 : Rat) ∧ (1 / 8 : Rat).den = 2 ^ 3 * 5 ^ 0 ∧
      ofText? (render (1 / 8)) = some (1 / 8)) ∧
    (ofText? "007.50" = some (15 / 2) ∧ ∃ numeral : Numeral, numeral.WellFormed ∧
      "007.50" = String.ofList numeral.chars ∧
      render (15 / 2) = String.ofList numeral.trimmed.chars) ∧
    (ofText? "00.000" = some 0 ∧ (render (15 / 2) = render 0 ↔ (15 / 2 : Rat) = 0)) := by
  have eighth : (1 / 8 : Rat).den = 2 ^ 3 * 5 ^ 0 := by decide +kernel
  have zeros : ofText? "007.50" = some (15 / 2) := by decide +kernel
  have zero : ofText? "00.000" = some 0 := by decide +kernel
  obtain ⟨readBack, canonical, alike⟩ := render_exact_and_canonical
  exact ⟨⟨by positivity, eighth, readBack _ (by positivity) ⟨3, 0, eighth⟩⟩,
    ⟨zeros, canonical _ _ zeros⟩, zero, alike _ _ _ _ zeros zero⟩

end Decimal
end CanonicalEquation
