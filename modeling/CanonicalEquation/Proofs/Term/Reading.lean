import CanonicalEquation.Term.Reading
import CanonicalEquation.Term.Rendering
import CanonicalEquation.Proofs.Decimal.Rendering
import CanonicalEquation.Proofs.Monomial
import CanonicalEquation.Proofs.Text.Words

/-!
# Reading terms back

A term without blanks is a monomial behind at most one sign.  Every term that
is read has a finite decimal expansion and a key that can be written, and the
unsigned text of such a term is read back as a term with the same key and the
same magnitude.
-/

namespace CanonicalEquation

/-- The keys that can be written: lowercase letters and a power of digits,
which a constant has not. -/
def Key.WellFormed (key : Key) : Prop :=
  ∃ letters exponent : List Char,
    key = ⟨String.ofList letters, String.ofList (Monomial.powerChars exponent)⟩ ∧
    (∀ c ∈ letters, c.isLower = true) ∧
    (∀ c ∈ exponent, c.isDigit = true) ∧
    (letters = [] → exponent = [])

/-- The terms that can be written and read back. -/
structure Term.WellFormed (term : Term) : Prop where
  key_wellFormed : term.key.WellFormed
  magnitude_nonneg : 0 ≤ term.magnitude
  magnitude_isFinite : Decimal.IsFinite term.magnitude

namespace Monomial

@[simp] theorem toTerm_sign
    (sign : Sign)
    (monomial : Monomial) : (monomial.toTerm sign).sign = sign := rfl

theorem toTerm_magnitude
    (sign : Sign)
    (monomial : Monomial) :
    (monomial.toTerm sign).magnitude = (monomial.numeral.map Numeral.value).getD 1 := rfl

/-- The term of a monomial that can be written can be written. -/
theorem wellFormed_toTerm
    (sign : Sign)
    {monomial : Monomial}
    (wellFormed : monomial.WellFormed) : (monomial.toTerm sign).WellFormed := by
  refine ⟨⟨monomial.letters, monomial.exponent, rfl, wellFormed.letters_lower,
    wellFormed.exponent_digits, wellFormed.exponent_of_constant⟩, ?_, ?_⟩
  · rw [toTerm_magnitude]
    cases monomial.numeral with
    | none => exact zero_le_one
    | some numeral => exact numeral.value_nonneg
  · rw [toTerm_magnitude]
    cases monomial.numeral with
    | none => exact Decimal.IsFinite.one
    | some numeral => exact Decimal.isFinite_numeralValue numeral

/-- No character of a monomial writes a sign. -/
theorem ofChar?_of_occurs
    {c : Char}
    (inMonomial : occurs c = true) : Sign.ofChar? c = none := by
  have range := toNat_of_occurs inMonomial
  unfold Sign.ofChar?
  split
  · exact absurd inMonomial (by decide)
  · exact absurd inMonomial (by decide)
  · rfl

/-- A monomial does not begin with a sign. -/
theorem unsigned_chars
    {monomial : Monomial}
    (wellFormed : monomial.WellFormed) : monomial.chars.head?.bind Sign.ofChar? = none := by
  cases chars : monomial.chars with
  | nil => rfl
  | cons first others =>
      rw [List.head?_cons, Option.bind_some]
      exact ofChar?_of_occurs (occurs_of_mem_chars wellFormed (by simp [chars]))

theorem solid_chars
    {monomial : Monomial}
    (wellFormed : monomial.WellFormed) : Text.Solid Text.isBlank monomial.chars := by
  intro c member
  have range := toNat_of_occurs (occurs_of_mem_chars wellFormed member)
  exact Text.not_isBlank (by omega)

theorem stopsBefore_chars
    {monomial : Monomial}
    (wellFormed : monomial.WellFormed) : Text.StopsBefore Text.isTermBlank monomial.chars :=
  fun c head => (solid_chars wellFormed).isTermBlank c (List.mem_of_head? head)

end Monomial

theorem Sign.ofChar?_eq_some_iff
    {c : Char}
    {sign : Sign} : ofChar? c = some sign ↔ c = sign.char := by
  constructor
  · intro found
    unfold ofChar? at found
    split at found
    · rw [← Option.some.inj found]
      rfl
    · rw [← Option.some.inj found]
      rfl
    · exact absurd found (by simp)
  · rintro rfl
    exact ofChar?_char sign

namespace Term

theorem ofSignedChars?_cons
    (sign : Sign)
    (text : List Char) :
    ofSignedChars? (sign.char :: text) =
      (Monomial.ofChars? (text.dropWhile Text.isTermBlank)).map (Monomial.toTerm sign) := by
  simp only [ofSignedChars?, Sign.ofChar?_char, Option.bind_eq_bind, Option.bind_some,
    Option.pure_def]
  cases Monomial.ofChars? (text.dropWhile Text.isTermBlank) <;> rfl

theorem ofChars?_cons
    (sign : Sign)
    (text : List Char) :
    ofChars? (sign.char :: text) = ofSignedChars? (sign.char :: text) := by
  rw [ofChars?, if_pos (by simp)]

/-- Only a sign begins a term with its sign written. -/
theorem exists_sign_of_ofSignedChars?
    {text : List Char}
    {term : Term}
    (read : ofSignedChars? text = some term) :
    ∃ sign rest, text = Sign.char sign :: rest := by
  cases text with
  | nil => exact absurd read (by simp [ofSignedChars?])
  | cons first rest =>
      cases found : Sign.ofChar? first with
      | none => simp [ofSignedChars?, found] at read
      | some sign =>
          exact ⟨sign, rest, by rw [Sign.ofChar?_eq_some_iff.mp found]⟩

/-- A text is a signed term exactly when it is a sign and a monomial with blanks
between them. -/
theorem ofSignedChars?_eq_some_iff_blanks
    {text : List Char}
    {term : Term} :
    ofSignedChars? text = some term ↔
      ∃ sign blanks monomial, (∀ c ∈ blanks, Text.isTermBlank c = true) ∧
        Monomial.WellFormed monomial ∧ text = Sign.char sign :: (blanks ++ monomial.chars) ∧
        term = monomial.toTerm sign := by
  constructor
  · intro read
    obtain ⟨sign, rest, rfl⟩ := exists_sign_of_ofSignedChars? read
    rw [ofSignedChars?_cons] at read
    obtain ⟨monomial, monomialRead, rfl⟩ := Option.map_eq_some_iff.mp read
    obtain ⟨wellFormed, chars⟩ := Monomial.ofChars?_eq_some_iff.mp monomialRead
    refine ⟨sign, rest.takeWhile Text.isTermBlank, monomial,
      fun c member => List.mem_takeWhile_imp member, wellFormed, ?_, rfl⟩
    rw [chars, List.takeWhile_append_dropWhile]
  · rintro ⟨sign, blanks, monomial, areBlank, wellFormed, rfl, rfl⟩
    rw [ofSignedChars?_cons,
      Text.dropWhile_append_of_stopsBefore areBlank (Monomial.stopsBefore_chars wellFormed),
      Monomial.ofChars?_eq_some_iff.mpr ⟨wellFormed, rfl⟩]
    rfl

/-- A solid text is a signed term exactly when it is a sign and a monomial. -/
theorem ofSignedChars?_eq_some_iff
    {text : List Char}
    (solid : Text.Solid Text.isTermBlank text)
    {term : Term} :
    ofSignedChars? text = some term ↔
      ∃ sign monomial, Monomial.WellFormed monomial ∧
        text = Sign.char sign :: monomial.chars ∧ term = monomial.toTerm sign := by
  rw [ofSignedChars?_eq_some_iff_blanks]
  constructor
  · rintro ⟨sign, blanks, monomial, areBlank, wellFormed, rfl, rfl⟩
    have noBlanks : blanks = [] := by
      apply List.eq_nil_iff_forall_not_mem.mpr
      intro c member
      have notBlank := solid c (List.mem_cons_of_mem _ (List.mem_append_left _ member))
      rw [areBlank c member] at notBlank
      cases notBlank
    rw [noBlanks]
    exact ⟨sign, monomial, wellFormed, rfl, rfl⟩
  · rintro ⟨sign, monomial, wellFormed, rfl, rfl⟩
    exact ⟨sign, [], monomial, List.forall_mem_nil _, wellFormed, rfl, rfl⟩

/-- A text without a sign in front is a term exactly when it is a monomial. -/
theorem ofChars?_of_unsigned
    {text : List Char}
    (unsigned : text.head?.bind Sign.ofChar? = none) :
    ofChars? text = (Monomial.ofChars? text).map (Monomial.toTerm .plus) := by
  rw [ofChars?, if_neg (by simp [unsigned])]

theorem ofChars?_chars
    {monomial : Monomial}
    (wellFormed : monomial.WellFormed) :
    ofChars? monomial.chars = some (monomial.toTerm .plus) := by
  rw [ofChars?_of_unsigned (Monomial.unsigned_chars wellFormed),
    Monomial.ofChars?_eq_some_iff.mpr ⟨wellFormed, rfl⟩]
  rfl

/-- The characters of an optional sign. -/
def signChars (sign : Option Sign) : List Char :=
  (sign.map Sign.char).toList

theorem solid_signChars_append
    (sign : Option Sign)
    {monomial : Monomial}
    (wellFormed : monomial.WellFormed) :
    Text.Solid Text.isBlank (signChars sign ++ monomial.chars) := by
  refine Text.Solid.append ?_ (Monomial.solid_chars wellFormed)
  intro c member
  cases sign with
  | none => cases member
  | some sign =>
      obtain rfl := List.mem_singleton.mp member
      cases sign <;> rfl

/-- A solid text is a term exactly when it is a monomial behind at most one
sign. -/
theorem ofChars?_eq_some_iff
    {text : List Char}
    (solid : Text.Solid Text.isTermBlank text)
    {term : Term} :
    ofChars? text = some term ↔
      ∃ sign monomial, Monomial.WellFormed monomial ∧
        text = signChars sign ++ monomial.chars ∧
        term = monomial.toTerm (sign.getD .plus) := by
  constructor
  · intro read
    by_cases unsigned : text.head?.bind Sign.ofChar? = none
    · rw [ofChars?_of_unsigned unsigned] at read
      obtain ⟨monomial, monomialRead, rfl⟩ := Option.map_eq_some_iff.mp read
      obtain ⟨wellFormed, rfl⟩ := Monomial.ofChars?_eq_some_iff.mp monomialRead
      exact ⟨none, monomial, wellFormed, rfl, rfl⟩
    · rw [ofChars?, if_pos (by simpa using Option.isSome_iff_ne_none.mpr unsigned)] at read
      obtain ⟨sign, monomial, wellFormed, equal, rfl⟩ :=
        (ofSignedChars?_eq_some_iff solid).mp read
      exact ⟨some sign, monomial, wellFormed, equal, rfl⟩
  · rintro ⟨sign, monomial, wellFormed, rfl, rfl⟩
    cases sign with
    | none => exact ofChars?_chars wellFormed
    | some sign =>
        change ofChars? (sign.char :: monomial.chars) = _
        rw [ofChars?_cons]
        exact (ofSignedChars?_eq_some_iff solid).mpr ⟨sign, monomial, wellFormed, rfl, rfl⟩

/-- The characters of terms without blanks. -/
def occurs (c : Char) : Bool :=
  Monomial.occurs c || c == '+' || c == '-'

theorem toNat_of_occurs
    {c : Char}
    (inTerm : occurs c = true) : 43 ≤ c.toNat ∧ c.toNat ≤ 122 := by
  simp only [occurs, Bool.or_eq_true, beq_iff_eq] at inTerm
  rcases inTerm with (inMonomial | plus) | minus
  · have := Monomial.toNat_of_occurs inMonomial
    omega
  · subst plus
    decide
  · subst minus
    decide

theorem occurs_of_ofChars?
    {text : List Char}
    (solid : Text.Solid Text.isTermBlank text)
    {term : Term}
    (read : ofChars? text = some term)
    {c : Char}
    (member : c ∈ text) : occurs c = true := by
  obtain ⟨sign, monomial, wellFormed, rfl, _⟩ := (ofChars?_eq_some_iff solid).mp read
  rcases List.mem_append.mp member with inSign | inMonomial
  · cases sign with
    | none => exact absurd inSign (by simp [signChars])
    | some sign =>
        obtain rfl := List.mem_singleton.mp inSign
        cases sign <;> decide
  · simp [occurs, Monomial.occurs_of_mem_chars wellFormed inMonomial]

theorem wellFormed_of_ofSignedChars?
    {text : List Char}
    {term : Term}
    (read : ofSignedChars? text = some term) : term.WellFormed := by
  obtain ⟨sign, rest, rfl⟩ := exists_sign_of_ofSignedChars? read
  rw [ofSignedChars?_cons] at read
  obtain ⟨monomial, monomialRead, rfl⟩ := Option.map_eq_some_iff.mp read
  exact Monomial.wellFormed_toTerm sign (Monomial.ofChars?_eq_some_iff.mp monomialRead).1

/-- A term that was read can be written. -/
theorem wellFormed_of_ofChars?
    {text : List Char}
    {term : Term}
    (read : ofChars? text = some term) : term.WellFormed := by
  unfold ofChars? at read
  split at read
  · exact wellFormed_of_ofSignedChars? read
  · obtain ⟨monomial, monomialRead, rfl⟩ := Option.map_eq_some_iff.mp read
    exact Monomial.wellFormed_toTerm .plus (Monomial.ofChars?_eq_some_iff.mp monomialRead).1

theorem mapM_cons_eq_some_iff
    {read : List Char → Option Term}
    {word : List Char}
    {rest : List (List Char)}
    {terms : List Term} :
    (word :: rest).mapM read = some terms ↔
      ∃ first others, read word = some first ∧ rest.mapM read = some others ∧
        terms = first :: others := by
  rw [List.mapM_cons]
  cases read word with
  | none => simp
  | some first => cases rest.mapM read <;> simp [eq_comm]

/-- Words are a sequence exactly when the first is a term and the others are terms
with their signs. -/
theorem sequenceOfWords?_cons_eq_some_iff
    {word : List Char}
    {rest : List (List Char)}
    {terms : List Term} :
    sequenceOfWords? (word :: rest) = some terms ↔
      ∃ first others, ofChars? word = some first ∧ rest.mapM ofSignedChars? = some others ∧
        terms = first :: others := by
  rw [sequenceOfWords?]
  cases ofChars? word with
  | none => simp
  | some first => cases rest.mapM ofSignedChars? <;> simp [eq_comm]

theorem wellFormed_of_mapM
    {words : List (List Char)}
    {terms : List Term}
    (read : words.mapM ofSignedChars? = some terms) : ∀ term ∈ terms, term.WellFormed := by
  induction words generalizing terms with
  | nil =>
      cases read
      exact List.forall_mem_nil _
  | cons word rest inductionHypothesis =>
      obtain ⟨first, others, firstRead, othersRead, rfl⟩ := mapM_cons_eq_some_iff.mp read
      exact List.forall_mem_cons.mpr
        ⟨wellFormed_of_ofSignedChars? firstRead, inductionHypothesis othersRead⟩

/-- A sequence of terms has a first term, and all its terms can be written. -/
theorem wellFormed_of_sequence?
    {text : List Char}
    {terms : List Term}
    (read : sequence? text = some terms) :
    (∃ first rest, terms = first :: rest) ∧ ∀ term ∈ terms, term.WellFormed := by
  unfold sequence? at read
  cases words : attachSigns (Text.words Text.isTermBlank text) with
  | nil =>
      rw [words] at read
      cases read
  | cons word others =>
      rw [words] at read
      obtain ⟨first, rest, firstRead, restRead, rfl⟩ := sequenceOfWords?_cons_eq_some_iff.mp read
      exact ⟨⟨first, rest, rfl⟩, List.forall_mem_cons.mpr
        ⟨wellFormed_of_ofChars? firstRead, wellFormed_of_mapM restRead⟩⟩

theorem readSequence_eq_ok_iff
    {text : String}
    {terms : List Term} :
    readSequence text = .ok terms ↔ sequence? text.toList = some terms := by
  unfold readSequence
  cases sequence? text.toList <;> simp

/-! ## Writing and reading back -/

/-- The numeral that is written in front of the letters of a term, if any. -/
def writtenNumeral (term : Term) : Option Numeral :=
  if term.isConstant then
    some ((term.coefficient.map Decimal.magnitudeNumeral).getD ⟨['1'], []⟩)
  else
    match term.coefficient with
    | none => none
    | some magnitude => if magnitude = 1 then none else some (Decimal.magnitudeNumeral magnitude)

theorem toList_coefficientText
    {term : Term}
    (wellFormed : term.WellFormed) :
    term.coefficientText.toList = (term.writtenNumeral.map Numeral.chars).getD [] := by
  have nonneg := wellFormed.magnitude_nonneg
  unfold magnitude at nonneg
  unfold coefficientText writtenNumeral
  cases coefficient : term.coefficient with
  | none => split <;> rfl
  | some value =>
      rw [coefficient, Option.getD_some] at nonneg
      simp only [Option.map_some, Option.getD_some, Decimal.render_of_nonneg nonneg]
      split
      · simp
      · split <;> simp

theorem eq_of_mem_writtenNumeral
    {term : Term}
    {numeral : Numeral}
    (written : term.writtenNumeral = some numeral) :
    numeral = ⟨['1'], []⟩ ∨ ∃ value, numeral = Decimal.magnitudeNumeral value := by
  unfold writtenNumeral at written
  cases coefficient : term.coefficient with
  | none =>
      rw [coefficient] at written
      split at written
      · exact .inl (Option.some.inj written).symm
      · exact absurd written (by simp)
  | some value =>
      rw [coefficient] at written
      simp only [Option.map_some, Option.getD_some] at written
      split at written
      · exact .inr ⟨value, (Option.some.inj written).symm⟩
      · split at written
        · exact absurd written (by simp)
        · exact .inr ⟨value, (Option.some.inj written).symm⟩

/-- A coefficient is written without superfluous zeros. -/
theorem isCanonical_of_mem_writtenNumeral
    {term : Term}
    {numeral : Numeral}
    (written : term.writtenNumeral = some numeral) :
    numeral.WellFormed ∧ numeral.IsCanonical := by
  rcases eq_of_mem_writtenNumeral written with rfl | ⟨value, rfl⟩
  · exact ⟨Numeral.wellFormed_digit rfl, .inr (by decide), by decide⟩
  · exact ⟨Decimal.wellFormed_magnitudeNumeral value, Decimal.isCanonical_magnitudeNumeral value⟩

/-- What is written in front of the letters says the magnitude of the term. -/
theorem value_writtenNumeral
    {term : Term}
    (wellFormed : term.WellFormed) :
    (term.writtenNumeral.map Numeral.value).getD 1 = term.magnitude := by
  have nonneg := wellFormed.magnitude_nonneg
  have finite := wellFormed.magnitude_isFinite
  have one : Numeral.value ⟨['1'], []⟩ = 1 := by decide +kernel
  unfold magnitude at nonneg finite ⊢
  unfold writtenNumeral
  cases coefficient : term.coefficient with
  | none => split <;> simp [one]
  | some value =>
      rw [coefficient, Option.getD_some] at nonneg finite
      have exactly : (Decimal.magnitudeNumeral value).value = value := by
        rw [Decimal.value_magnitudeNumeral_of_isFinite finite, abs_of_nonneg nonneg]
      simp only [Option.map_some, Option.getD_some]
      split
      · exact exactly
      · split
        next isOne => exact isOne.symm
        · exact exactly

/-- In front of letters no coefficient of one is written. -/
theorem magnitude_ne_one_of_mem_writtenNumeral
    {term : Term}
    (notConstant : term.isConstant = false)
    {numeral : Numeral}
    (written : term.writtenNumeral = some numeral) : term.magnitude ≠ 1 := by
  unfold writtenNumeral at written
  rw [if_neg (by simp [notConstant])] at written
  unfold magnitude
  cases coefficient : term.coefficient with
  | none =>
      rw [coefficient] at written
      cases written
  | some value =>
      simp only [coefficient] at written
      split at written
      · cases written
      next notOne => exact notOne

/-- The monomial that a term is without its sign. -/
def monomial (term : Term) : Monomial where
  numeral := term.writtenNumeral
  letters := term.key.letters.toList
  exponent := term.key.power.toList.tail

theorem tail_powerChars
    (exponent : List Char) : (Monomial.powerChars exponent).tail = exponent := by
  unfold Monomial.powerChars
  split
  next empty =>
    rw [List.isEmpty_iff.mp empty]
    rfl
  · rfl

/-- The monomial of a term that can be written can be written, and has the key of
the term. -/
theorem wellFormed_monomial
    {term : Term}
    (wellFormed : term.WellFormed) :
    term.monomial.WellFormed ∧
      (⟨String.ofList term.monomial.letters,
        String.ofList (Monomial.powerChars term.monomial.exponent)⟩ : Key) = term.key := by
  obtain ⟨letters, exponent, key, lower, digits, constant⟩ := wellFormed.key_wellFormed
  have sameLetters : term.monomial.letters = letters := by
    rw [monomial, key, String.toList_ofList]
  have sameExponent : term.monomial.exponent = exponent := by
    simp only [monomial, key, String.toList_ofList, tail_powerChars]
  rw [sameLetters, sameExponent, key]
  refine
    ⟨⟨fun numeral written => (isCanonical_of_mem_writtenNumeral written).1, ?_, ?_, ?_, ?_⟩, rfl⟩
  · rwa [sameLetters]
  · rwa [sameExponent]
  · rw [sameLetters]
    rintro rfl
    have isConstant : term.isConstant = true := by simp [Term.isConstant, key]
    simp [monomial, writtenNumeral, isConstant]
  · rwa [sameLetters, sameExponent]

/-- The unsigned text of a term that can be written is its monomial. -/
theorem chars_monomial
    {term : Term}
    (wellFormed : term.WellFormed) : term.monomial.chars = term.unsignedText.toList := by
  obtain ⟨_, key⟩ := wellFormed_monomial wellFormed
  rw [unsignedText, String.toList_append, String.toList_append, toList_coefficientText wellFormed,
    ← key, String.toList_ofList, String.toList_ofList]
  rfl

/-- The monomial of a term is read with the key and the magnitude of the term. -/
theorem toTerm_monomial
    {term : Term}
    (wellFormed : term.WellFormed)
    (sign : Sign) :
    (term.monomial.toTerm sign).key = term.key ∧
      (term.monomial.toTerm sign).magnitude = term.magnitude :=
  ⟨(wellFormed_monomial wellFormed).2, value_writtenNumeral wellFormed⟩

end Term
end CanonicalEquation
