import CanonicalEquation.Decimal.Numeral
import CanonicalEquation.Proofs.Text.Characters
import Mathlib.Data.List.Induction

/-!
# Reading numerals

Reading takes the longest numeral at the front of a text.  So a numeral is
read back from its characters, whatever follows them that does not continue
it, and a text is read as a numeral exactly when it has the characters of one.
-/

namespace CanonicalEquation
namespace Numeral

/-- The numerals that can be written: digits, and at least one of them in
front of the point. -/
structure WellFormed (numeral : Numeral) : Prop where
  whole_ne_nil : numeral.whole ≠ []
  whole_digits : ∀ c ∈ numeral.whole, c.isDigit = true
  fraction_digits : ∀ c ∈ numeral.fraction, c.isDigit = true

theorem wellFormed_digit
    {c : Char}
    (digit : c.isDigit = true) : WellFormed ⟨[c], []⟩ :=
  ⟨List.cons_ne_nil _ _, List.forall_mem_singleton.mpr digit,
    List.forall_mem_nil _⟩

/-- What can continue a numeral: a digit or a point. -/
def continues (c : Char) : Bool :=
  c.isDigit || c == '.'

theorem toNat_of_continues
    {c : Char}
    (inNumeral : continues c = true) : 46 ≤ c.toNat ∧ c.toNat ≤ 57 := by
  rw [continues, Bool.or_eq_true, Text.isDigit_iff, beq_iff_eq] at inNumeral
  rcases inNumeral with digit | point
  · omega
  · subst point
    decide

theorem not_isDigit_of_stopsBefore
    {rest : List Char}
    (stops : Text.StopsBefore continues rest) : Text.StopsBefore Char.isDigit rest := by
  intro c head
  have := stops c head
  rw [continues, Bool.or_eq_false_iff] at this
  exact this.1

theorem fractionOf_of_stopsBefore
    {rest : List Char}
    (stops : Text.StopsBefore continues rest) : fractionOf rest = [] := by
  cases rest with
  | nil => rfl
  | cons first others =>
      rw [Text.stopsBefore_cons, continues, Bool.or_eq_false_iff] at stops
      unfold fractionOf
      split
      next digits point =>
        obtain rfl := (List.cons.inj point).1
        simp at stops
      · rfl

theorem chars_ne_nil
    {numeral : Numeral}
    (wellFormed : numeral.WellFormed) : numeral.chars ≠ [] := by
  unfold chars
  split
  · exact wellFormed.whole_ne_nil
  · simp

/-- The characters of a numeral are digits and points. -/
theorem continues_of_mem_chars
    {numeral : Numeral}
    (wellFormed : numeral.WellFormed)
    {c : Char}
    (member : c ∈ numeral.chars) : continues c = true := by
  unfold chars at member
  unfold continues
  split at member
  · simp [wellFormed.whole_digits c member]
  · rcases List.mem_append.mp member with inWhole | inFraction
    · simp [wellFormed.whole_digits c inWhole]
    · rcases List.mem_cons.mp inFraction with point | digit
      · simp [point]
      · simp [wellFormed.fraction_digits c digit]

/-- A numeral is read back from its characters in front of anything that does
not continue it. -/
theorem scan?_chars_append
    {numeral : Numeral}
    (wellFormed : numeral.WellFormed)
    {rest : List Char}
    (stops : Text.StopsBefore continues rest) :
    scan? (numeral.chars ++ rest) = some (numeral, rest) := by
  obtain ⟨whole, fraction⟩ := numeral
  have restStops := not_isDigit_of_stopsBefore stops
  have wholeDigits := wellFormed.whole_digits
  have wholeNotEmpty : whole.isEmpty = false := by
    simpa using wellFormed.whole_ne_nil
  by_cases empty : fraction = []
  · subst empty
    have taken := Text.takeWhile_append_of_stopsBefore wholeDigits restStops
    have dropped := Text.dropWhile_append_of_stopsBefore wholeDigits restStops
    simp only [scan?, chars, List.isEmpty_nil, if_true] at taken dropped ⊢
    rw [taken, dropped, fractionOf_of_stopsBefore stops, wholeNotEmpty]
    rfl
  · have fractionNotEmpty : fraction.isEmpty = false := by simpa using empty
    have pointStops : Text.StopsBefore Char.isDigit ('.' :: (fraction ++ rest)) := by
      rw [Text.stopsBefore_cons]
      decide
    have taken := Text.takeWhile_append_of_stopsBefore wholeDigits pointStops
    have dropped := Text.dropWhile_append_of_stopsBefore wholeDigits pointStops
    have fractionTaken := Text.takeWhile_append_of_stopsBefore
      wellFormed.fraction_digits restStops
    simp only [scan?, chars, fractionNotEmpty, Bool.false_eq_true, if_false,
      List.append_assoc, List.cons_append] at taken dropped fractionTaken ⊢
    rw [taken, dropped, fractionOf, fractionTaken, wholeNotEmpty, fractionNotEmpty]
    simp

/-- What is read as a numeral has the characters of that numeral. -/
theorem chars_append_of_scan?
    {text rest : List Char}
    {numeral : Numeral}
    (scanned : scan? text = some (numeral, rest)) :
    numeral.WellFormed ∧ text = numeral.chars ++ rest := by
  have wholeDigits : ∀ c ∈ text.takeWhile Char.isDigit, c.isDigit = true := by
    intro c member
    exact List.mem_takeWhile_imp member
  have cut : text.takeWhile Char.isDigit ++ text.dropWhile Char.isDigit = text :=
    List.takeWhile_append_dropWhile
  simp only [scan?] at scanned
  split at scanned
  · exact absurd scanned (by simp)
  next wholeNotEmpty =>
    have wholeNeNil : text.takeWhile Char.isDigit ≠ [] := by simpa using wholeNotEmpty
    split at scanned
    next fractionEmpty =>
      obtain ⟨rfl, rfl⟩ := Prod.mk.inj (Option.some.inj scanned)
      exact ⟨⟨wholeNeNil, wholeDigits, by simp⟩, by simp [chars]⟩
    next fractionNotEmpty =>
      obtain ⟨rfl, rfl⟩ := Prod.mk.inj (Option.some.inj scanned)
      unfold fractionOf at fractionNotEmpty ⊢
      split at fractionNotEmpty
      next others pointFollows =>
        simp only [pointFollows] at cut ⊢
        refine ⟨⟨wholeNeNil, wholeDigits, fun c member => List.mem_takeWhile_imp member⟩, ?_⟩
        rw [chars, if_neg fractionNotEmpty, List.drop_succ_cons, List.append_assoc,
          List.cons_append, Text.takeWhile_append_drop]
        exact cut.symm
      · simp at fractionNotEmpty

/-- Nothing is read as a numeral exactly where no digit stands. -/
theorem scan?_eq_none_iff {text : List Char} :
    scan? text = none ↔ Text.StopsBefore Char.isDigit text := by
  have headTaken : text.takeWhile Char.isDigit = [] ↔ Text.StopsBefore Char.isDigit text := by
    cases text with
    | nil => simp
    | cons first others =>
        rw [Text.stopsBefore_cons]
        cases digit : first.isDigit <;> simp [digit]
  rw [← headTaken]
  simp only [scan?]
  constructor
  · intro notScanned
    by_contra notEmpty
    rw [if_neg (by simpa using notEmpty)] at notScanned
    split at notScanned <;> simp at notScanned
  · intro empty
    simp [empty]

/-- A text is a numeral exactly when it has the characters of one. -/
theorem ofChars?_eq_some_iff
    {text : List Char}
    {numeral : Numeral} :
    ofChars? text = some numeral ↔ numeral.WellFormed ∧ numeral.chars = text := by
  constructor
  · intro read
    unfold ofChars? at read
    split at read
    next found scanned =>
      obtain rfl := Option.some.inj read
      obtain ⟨wellFormed, equal⟩ := chars_append_of_scan? scanned
      exact ⟨wellFormed, by simpa using equal.symm⟩
    · exact absurd read (by simp)
  · rintro ⟨wellFormed, rfl⟩
    have scanned := scan?_chars_append wellFormed (Text.stopsBefore_nil continues)
    rw [List.append_nil] at scanned
    rw [ofChars?, scanned]

/-! ## Zeros in front -/

theorem exists_digitChar
    {c : Char}
    (digit : c.isDigit = true) : ∃ number < 10, c = Nat.digitChar number := by
  have range := Text.isDigit_iff.mp digit
  refine ⟨c.toNat - 48, by omega, Char.toNat_inj.mp ?_⟩
  rw [Nat.toNat_digitChar_of_lt_ten (by omega)]
  omega

/-- What is dropped in front of digits are zeros only. -/
theorem exists_zeros_append (digits : List Char) :
    ∃ count, digits = List.replicate count '0' ++ digits.dropWhile (· == '0') := by
  have cut : digits.takeWhile (· == '0') ++ digits.dropWhile (· == '0') = digits :=
    List.takeWhile_append_dropWhile
  have zeros : digits.takeWhile (· == '0') =
      List.replicate (digits.takeWhile (· == '0')).length '0' := by
    apply List.eq_replicate_of_mem
    intro c member
    simpa using List.mem_takeWhile_imp member
  exact ⟨_, by rw [← zeros, cut]⟩

/-- Without the zeros in front, digits are those of the number that they write,
and there are none for zero. -/
theorem dropWhile_zero_eq
    {digits : List Char}
    (areDigits : ∀ c ∈ digits, c.isDigit = true) :
    digits.dropWhile (· == '0') =
      if Nat.ofDigitChars 10 digits 0 = 0 then
        []
      else
        Nat.toDigits 10 (Nat.ofDigitChars 10 digits 0) := by
  induction digits using List.reverseRecOn with
  | nil => rfl
  | append_singleton front last inductionHypothesis =>
      obtain ⟨frontDigits, lastDigit⟩ := List.forall_mem_append.mp areDigits
      obtain ⟨digit, small, rfl⟩ := exists_digitChar (lastDigit last (by simp))
      rw [List.dropWhile_append, inductionHypothesis frontDigits, Nat.ofDigitChars_append,
        Nat.ofDigitChars_cons_digitChar_of_lt_ten small, Nat.ofDigitChars_nil]
      by_cases zero : Nat.ofDigitChars 10 front 0 = 0
      · by_cases lastZero : digit = 0 <;>
          simp [zero, lastZero, Nat.toDigits_of_lt_base small]
      · have positive : 0 < Nat.ofDigitChars 10 front 0 := Nat.pos_of_ne_zero zero
        have nonzero : 10 * Nat.ofDigitChars 10 front 0 + digit ≠ 0 := by omega
        rw [if_neg zero, if_neg nonzero,
          ← Nat.toDigits_append_toDigits (by decide) positive small,
          Nat.toDigits_of_lt_base small]
        simp [Nat.toDigits_ne_nil]

/-- Digits write the same number exactly when they differ at most in the zeros
in front. -/
theorem ofDigitChars_eq_iff
    {first second : List Char}
    (firstDigits : ∀ c ∈ first, c.isDigit = true)
    (secondDigits : ∀ c ∈ second, c.isDigit = true) :
    Nat.ofDigitChars 10 first 0 = Nat.ofDigitChars 10 second 0 ↔
      first.dropWhile (· == '0') = second.dropWhile (· == '0') := by
  rw [dropWhile_zero_eq firstDigits, dropWhile_zero_eq secondDigits]
  refine ⟨fun equal => by rw [equal], fun equal => ?_⟩
  split at equal
  next firstZero =>
    split at equal
    next secondZero => rw [firstZero, secondZero]
    · exact absurd equal.symm Nat.toDigits_ne_nil
  · split at equal
    · exact absurd equal Nat.toDigits_ne_nil
    · rw [← Nat.ofDigitChars_ten_toDigits (n := Nat.ofDigitChars 10 first 0), equal,
        Nat.ofDigitChars_ten_toDigits]

end Numeral
end CanonicalEquation
