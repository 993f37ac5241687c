import CanonicalEquation.Monomial
import CanonicalEquation.Proofs.Decimal.Numeral

/-!
# Reading monomials

A text is read as a monomial exactly when it has the characters of a
well-formed one.  So a monomial is read back from its characters, and the
characters of what is read are digits, points, letters and carets only.
-/

namespace CanonicalEquation
namespace Monomial

/-- The monomials that can be written: one without letters has a numeral and
no exponent. -/
structure WellFormed (monomial : Monomial) : Prop where
  numeral_wellFormed : ∀ numeral ∈ monomial.numeral, numeral.WellFormed
  letters_lower : ∀ c ∈ monomial.letters, c.isLower = true
  exponent_digits : ∀ c ∈ monomial.exponent, c.isDigit = true
  numeral_of_constant : monomial.letters = [] → monomial.numeral.isSome = true
  exponent_of_constant : monomial.letters = [] → monomial.exponent = []

theorem wellFormed_constant
    {numeral : Numeral}
    (wellFormed : numeral.WellFormed) :
    WellFormed ⟨some numeral, [], []⟩ :=
  ⟨fun other equal => Option.some.inj equal ▸ wellFormed, by simp, by simp, by simp,
    by simp⟩

/-- A numeral is the monomial without letters that it is the numeral of. -/
theorem chars_constant (numeral : Numeral) :
    chars ⟨some numeral, [], []⟩ = numeral.chars :=
  (List.append_nil _).trans (List.append_nil _)

/-- The characters of monomials: digits, the point, letters and the caret. -/
def occurs (c : Char) : Bool :=
  Numeral.continues c || c.isLower || c == '^'

theorem exponentOf?_eq_some_iff
    {text exponent : List Char} :
    exponentOf? text = some exponent ↔
      (∀ c ∈ exponent, c.isDigit = true) ∧ powerChars exponent = text := by
  constructor
  · intro read
    unfold exponentOf? at read
    split at read
    · obtain rfl := Option.some.inj read
      simp [powerChars]
    next digits =>
      split at read
      · exact absurd read (by simp)
      next notEmpty =>
        split at read
        next allDigits =>
          obtain rfl := Option.some.inj read
          rw [powerChars, if_neg notEmpty]
          exact ⟨List.all_eq_true.mp allDigits, rfl⟩
        · exact absurd read (by simp)
    · exact absurd read (by simp)
  · rintro ⟨digits, rfl⟩
    unfold powerChars
    split
    next empty =>
      rw [List.isEmpty_iff.mp empty]
      rfl
    next notEmpty =>
      rw [exponentOf?, if_neg notEmpty, if_pos (List.all_eq_true.mpr digits)]

theorem stopsBefore_powerChars (exponent : List Char) :
    Text.StopsBefore Char.isLower (powerChars exponent) := by
  unfold powerChars
  split
  · exact Text.stopsBefore_nil _
  · rw [Text.stopsBefore_cons]
    decide

/-- Behind a numeral or none, letters and an exponent are read back. -/
theorem withNumeral?_eq_some_iff
    {numeral : Option Numeral}
    {text : List Char}
    {monomial : Monomial} :
    withNumeral? numeral text = some monomial ↔
      monomial.numeral = numeral ∧
      monomial.letters ++ powerChars monomial.exponent = text ∧
      (∀ c ∈ monomial.letters, c.isLower = true) ∧
      (∀ c ∈ monomial.exponent, c.isDigit = true) ∧
      (monomial.letters = [] → numeral.isSome = true ∧ monomial.exponent = []) := by
  have cut : text.takeWhile Char.isLower ++ text.dropWhile Char.isLower = text :=
    List.takeWhile_append_dropWhile
  have lower : ∀ c ∈ text.takeWhile Char.isLower, c.isLower = true := fun c member =>
    List.mem_takeWhile_imp member
  constructor
  · intro read
    simp only [withNumeral?] at read
    split at read
    next noLetters =>
      have lettersNil : text.takeWhile Char.isLower = [] := List.isEmpty_iff.mp noLetters
      split at read
      next alone =>
        rw [Bool.and_eq_true] at alone
        obtain rfl := Option.some.inj read
        rw [lettersNil, List.isEmpty_iff.mp alone.2] at cut
        simp [← cut, powerChars, alone.1]
      · exact absurd read (by simp)
    next someLetters =>
      obtain ⟨exponent, exponentRead, rfl⟩ := Option.map_eq_some_iff.mp read
      obtain ⟨digits, equal⟩ := exponentOf?_eq_some_iff.mp exponentRead
      refine ⟨rfl, by rw [equal]; exact cut, lower, digits, fun lettersNil => ?_⟩
      exact absurd (List.isEmpty_iff.mpr lettersNil) someLetters
  · rintro ⟨rfl, rfl, letters, digits, constant⟩
    have stops := stopsBefore_powerChars monomial.exponent
    simp only [withNumeral?, Text.takeWhile_append_of_stopsBefore letters stops,
      Text.dropWhile_append_of_stopsBefore letters stops]
    split
    next noLetters =>
      have lettersNil : monomial.letters = [] := List.isEmpty_iff.mp noLetters
      obtain ⟨someNumeral, noExponent⟩ := constant lettersNil
      obtain ⟨numeral, letters, exponent⟩ := monomial
      subst lettersNil noExponent
      rw [if_pos (by simpa [powerChars] using someNumeral)]
    next someLetters =>
      rw [exponentOf?_eq_some_iff.mpr ⟨digits, rfl⟩]
      rfl

theorem stopsBefore_letters
    {monomial : Monomial}
    (wellFormed : monomial.WellFormed) :
    Text.StopsBefore Numeral.continues
      (monomial.letters ++ powerChars monomial.exponent) := by
  cases letters : monomial.letters with
  | nil =>
      rw [wellFormed.exponent_of_constant letters]
      exact Text.stopsBefore_nil _
  | cons first others =>
      have lower := wellFormed.letters_lower first (by simp [letters])
      rw [List.cons_append, Text.stopsBefore_cons]
      by_contra continued
      have small := Numeral.toNat_of_continues (by simpa using continued)
      have large := Text.isLower_iff.mp lower
      omega

/-- A text is a monomial exactly when it has the characters of a well-formed
one. -/
theorem ofChars?_eq_some_iff
    {text : List Char}
    {monomial : Monomial} :
    ofChars? text = some monomial ↔ monomial.WellFormed ∧ monomial.chars = text := by
  constructor
  · intro read
    unfold ofChars? at read
    split at read
    next numeral rest scanned =>
      obtain ⟨numeralWellFormed, equal⟩ := Numeral.chars_append_of_scan? scanned
      obtain ⟨found, rfl, letters, digits, constant⟩ := withNumeral?_eq_some_iff.mp read
      refine ⟨⟨by simp [found, numeralWellFormed], letters, digits, fun _ => by simp [found],
        fun empty => (constant empty).2⟩, ?_⟩
      rw [equal, chars, found, List.append_assoc]
      rfl
    next notScanned =>
      obtain ⟨found, rfl, letters, digits, constant⟩ := withNumeral?_eq_some_iff.mp read
      refine ⟨⟨by simp [found], letters, digits, fun empty => ?_,
        fun empty => (constant empty).2⟩, by simp [chars, found]⟩
      rw [found]
      exact (constant empty).1
  · rintro ⟨wellFormed, rfl⟩
    have stops := stopsBefore_letters wellFormed
    have rest := withNumeral?_eq_some_iff.mpr ⟨rfl, rfl, wellFormed.letters_lower,
      wellFormed.exponent_digits, fun empty => ⟨wellFormed.numeral_of_constant empty,
        wellFormed.exponent_of_constant empty⟩⟩
    unfold ofChars? chars
    rw [List.append_assoc]
    cases numeral : monomial.numeral with
    | none =>
        rw [numeral] at rest
        have notScanned : Numeral.scan? (monomial.letters ++ powerChars monomial.exponent) =
            none := Numeral.scan?_eq_none_iff.mpr (Numeral.not_isDigit_of_stopsBefore stops)
        rw [Option.map_none, Option.getD_none, List.nil_append, notScanned]
        exact rest
    | some written =>
        rw [numeral] at rest
        have scanned := Numeral.scan?_chars_append
          (wellFormed.numeral_wellFormed written numeral) stops
        rw [Option.map_some, Option.getD_some, scanned]
        exact rest

theorem occurs_of_mem_chars
    {monomial : Monomial}
    (wellFormed : monomial.WellFormed)
    {c : Char}
    (member : c ∈ monomial.chars) : occurs c = true := by
  unfold chars at member
  unfold occurs
  rcases List.mem_append.mp member with inFront | inPower
  · rcases List.mem_append.mp inFront with inNumeral | inLetters
    · cases numeral : monomial.numeral with
      | none => simp [numeral] at inNumeral
      | some written =>
          rw [numeral] at inNumeral
          simp [Numeral.continues_of_mem_chars
            (wellFormed.numeral_wellFormed written numeral) inNumeral]
    · simp [wellFormed.letters_lower c inLetters]
  · unfold powerChars at inPower
    split at inPower
    · simp at inPower
    · rcases List.mem_cons.mp inPower with caret | inExponent
      · simp [caret]
      · simp [Numeral.continues, wellFormed.exponent_digits c inExponent]

theorem chars_ne_nil
    {monomial : Monomial}
    (wellFormed : monomial.WellFormed) : monomial.chars ≠ [] := by
  intro empty
  unfold chars at empty
  simp only [List.append_eq_nil_iff] at empty
  obtain ⟨⟨noNumeral, noLetters⟩, _⟩ := empty
  obtain ⟨numeral, found⟩ :=
    Option.isSome_iff_exists.mp (wellFormed.numeral_of_constant noLetters)
  rw [found] at noNumeral
  exact Numeral.chars_ne_nil (wellFormed.numeral_wellFormed numeral found) noNumeral

theorem toNat_of_occurs
    {c : Char}
    (inMonomial : occurs c = true) : 46 ≤ c.toNat ∧ c.toNat ≤ 122 := by
  simp only [occurs, Bool.or_eq_true, beq_iff_eq] at inMonomial
  rcases inMonomial with (inNumeral | lower) | caret
  · have := Numeral.toNat_of_continues inNumeral
    omega
  · have := Text.isLower_iff.mp lower
    omega
  · subst caret
    decide

end Monomial
end CanonicalEquation
