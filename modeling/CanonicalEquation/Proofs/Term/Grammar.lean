import CanonicalEquation.Proofs.Term.Reading

/-!
# The grammar of terms

A term is spelled with an optional sign, blanks that only a sign can have behind
it, and a monomial.  A text is read as a term exactly when it has such a
spelling.  It has at most one, and the term says what the spelling does.  Any
other text is the error that names it.
-/

namespace CanonicalEquation
namespace Term

/-- How a term is written. -/
structure Spelling where
  /-- The sign in front, if one is written. -/
  sign : Option Sign
  /-- The blanks between the sign and the monomial. -/
  blanks : List Char
  /-- What stands behind them. -/
  monomial : Monomial

namespace Spelling

/-- The characters of a spelling. -/
def chars (spelling : Spelling) : List Char :=
  signChars spelling.sign ++ (spelling.blanks ++ spelling.monomial.chars)

/-- The term that a spelling stands for. -/
def term (spelling : Spelling) : Term :=
  spelling.monomial.toTerm (spelling.sign.getD .plus)

/-- The spellings of the term grammar.  The monomial is a numeral alone, or
letters that may have a numeral in front and an exponent behind. -/
structure WellFormed (spelling : Spelling) : Prop where
  blanks_areBlank : ∀ c ∈ spelling.blanks, Text.isTermBlank c = true
  blanks_of_unsigned : spelling.sign = none → spelling.blanks = []
  monomial_wellFormed : spelling.monomial.WellFormed

/-- A text is written by a spelling of the term grammar. -/
def Spells (spelling : Spelling) (text : String) : Prop :=
  spelling.WellFormed ∧ String.ofList spelling.chars = text

/-- What a spelling says of a term. -/
structure Denotes (spelling : Spelling) (term : Term) : Prop where
  /-- The sign is `-` exactly if that is written. -/
  sign_eq_minus_iff : term.sign = .minus ↔ spelling.sign = some .minus
  /-- There is a coefficient exactly if a numeral is written. -/
  coefficient_eq_none_iff : term.coefficient = none ↔ spelling.monomial.numeral = none
  /-- The coefficient is the digits of the numeral as one integer, over ten to
  the number of digits behind the point. -/
  coefficient_eq : ∀ numeral ∈ spelling.monomial.numeral, term.coefficient =
    some ((Nat.ofDigitChars 10 (numeral.whole ++ numeral.fraction) 0 : Rat) /
      10 ^ numeral.fraction.length)
  /-- The letters are those that are written. -/
  letters_eq : term.key.letters = String.ofList spelling.monomial.letters
  /-- The power is the caret with the digits behind it, or nothing. -/
  power_eq : term.key.power = String.ofList
    (if spelling.monomial.exponent = [] then [] else '^' :: spelling.monomial.exponent)

theorem denotes_term (spelling : Spelling) : spelling.Denotes spelling.term := by
  refine ⟨?_, ?_, ?_, rfl, ?_⟩
  · rw [term, Monomial.toTerm_sign]
    cases spelling.sign with
    | none => simp
    | some sign => simp
  · exact Option.map_eq_none_iff
  · intro numeral written
    rw [← numeral.value_eq_div]
    exact congrArg (Option.map Numeral.value) written
  · simp only [term, Monomial.toTerm, Monomial.powerChars, List.isEmpty_iff]

/-- A spelling has signs, blanks and the characters of monomials only. -/
theorem notMem_chars
    {spelling : Spelling}
    (wellFormed : spelling.WellFormed)
    {c : Char}
    (notSign : Sign.ofChar? c = none)
    (notBlank : Text.isTermBlank c = false)
    (notInMonomial : Monomial.occurs c = false) : c ∉ spelling.chars := by
  intro member
  rcases List.mem_append.mp member with inSign | inRest
  · cases written : spelling.sign with
    | none => simp [signChars, written] at inSign
    | some sign =>
        rw [written] at inSign
        rw [List.mem_singleton.mp inSign, Sign.ofChar?_char] at notSign
        cases notSign
  · rcases List.mem_append.mp inRest with inBlanks | inMonomial
    · rw [wellFormed.blanks_areBlank c inBlanks] at notBlank
      cases notBlank
    · rw [Monomial.occurs_of_mem_chars wellFormed.monomial_wellFormed inMonomial]
        at notInMonomial
      cases notInMonomial

end Spelling

/-! ## Reading a spelling -/

/-- The spellings of the grammar are all that is read as a term. -/
theorem ofChars?_eq_some_iff_spelling
    {text : List Char}
    {term : Term} :
    ofChars? text = some term ↔
      ∃ spelling : Spelling, spelling.WellFormed ∧ spelling.chars = text ∧
        spelling.term = term := by
  constructor
  · intro read
    by_cases unsigned : text.head?.bind Sign.ofChar? = none
    · rw [ofChars?_of_unsigned unsigned] at read
      obtain ⟨monomial, monomialRead, rfl⟩ := Option.map_eq_some_iff.mp read
      obtain ⟨wellFormed, rfl⟩ := Monomial.ofChars?_eq_some_iff.mp monomialRead
      exact ⟨⟨none, [], monomial⟩, ⟨List.forall_mem_nil _, fun _ => rfl, wellFormed⟩, rfl, rfl⟩
    · rw [ofChars?, if_pos (Option.isSome_iff_ne_none.mpr unsigned)] at read
      obtain ⟨sign, blanks, monomial, areBlank, wellFormed, rfl, rfl⟩ :=
        ofSignedChars?_eq_some_iff_blanks.mp read
      have signed : some sign ≠ none := Option.some_ne_none sign
      exact ⟨⟨some sign, blanks, monomial⟩,
        ⟨areBlank, fun unsigned => absurd unsigned signed, wellFormed⟩, rfl, rfl⟩
  · rintro ⟨⟨sign, blanks, monomial⟩, ⟨areBlank, blanksOfUnsigned, wellFormed⟩, rfl, rfl⟩
    cases sign with
    | none =>
        obtain rfl : blanks = [] := blanksOfUnsigned rfl
        exact ofChars?_chars wellFormed
    | some sign =>
        exact (ofChars?_cons sign (blanks ++ monomial.chars)).trans
          (ofSignedChars?_eq_some_iff_blanks.mpr
            ⟨sign, blanks, monomial, areBlank, wellFormed, rfl, rfl⟩)

/-! ## One spelling for each text -/

namespace Spelling

theorem chars_none_ne_chars_some
    {unsigned : Monomial}
    (wellFormed : unsigned.WellFormed)
    (sign : Sign)
    (rest : List Char) : unsigned.chars ≠ sign.char :: rest := by
  intro equal
  have occurs := Monomial.occurs_of_mem_chars wellFormed
    (equal ▸ List.mem_cons_self : sign.char ∈ unsigned.chars)
  cases sign <;> exact absurd occurs (by decide)

/-- A text has at most one spelling. -/
theorem eq_of_chars_eq
    {first second : Spelling}
    (firstWellFormed : first.WellFormed)
    (secondWellFormed : second.WellFormed)
    (equal : first.chars = second.chars) : first = second := by
  obtain ⟨firstSign, firstBlanks, firstMonomial⟩ := first
  obtain ⟨secondSign, secondBlanks, secondMonomial⟩ := second
  obtain ⟨firstAreBlank, firstUnsigned, firstMonomialWellFormed⟩ := firstWellFormed
  obtain ⟨secondAreBlank, secondUnsigned, secondMonomialWellFormed⟩ := secondWellFormed
  have bodies : firstBlanks ++ firstMonomial.chars = secondBlanks ++ secondMonomial.chars →
      firstBlanks = secondBlanks ∧ firstMonomial = secondMonomial := by
    intro bodiesEqual
    have firstStops := Monomial.stopsBefore_chars firstMonomialWellFormed
    have secondStops := Monomial.stopsBefore_chars secondMonomialWellFormed
    have blanks := congrArg (List.takeWhile Text.isTermBlank) bodiesEqual
    have monomials := congrArg (List.dropWhile Text.isTermBlank) bodiesEqual
    rw [Text.takeWhile_append_of_stopsBefore firstAreBlank firstStops,
      Text.takeWhile_append_of_stopsBefore secondAreBlank secondStops] at blanks
    rw [Text.dropWhile_append_of_stopsBefore firstAreBlank firstStops,
      Text.dropWhile_append_of_stopsBefore secondAreBlank secondStops] at monomials
    have firstRead := Monomial.ofChars?_eq_some_iff.mpr ⟨firstMonomialWellFormed, monomials⟩
    have secondRead := Monomial.ofChars?_eq_some_iff.mpr ⟨secondMonomialWellFormed, rfl⟩
    exact ⟨blanks, Option.some.inj (firstRead.symm.trans secondRead)⟩
  cases firstSign with
  | none =>
      cases secondSign with
      | none =>
          obtain ⟨rfl, rfl⟩ := bodies equal
          rfl
      | some sign =>
          obtain rfl : firstBlanks = [] := firstUnsigned rfl
          exact absurd equal (chars_none_ne_chars_some firstMonomialWellFormed sign _)
  | some firstMark =>
      cases secondSign with
      | none =>
          obtain rfl : secondBlanks = [] := secondUnsigned rfl
          exact absurd equal.symm (chars_none_ne_chars_some secondMonomialWellFormed firstMark _)
      | some secondMark =>
          obtain ⟨marks, rest⟩ := List.cons.inj equal
          obtain ⟨rfl, rfl⟩ := bodies rest
          have mark : Sign.ofChar? firstMark.char = some secondMark :=
            Sign.ofChar?_eq_some_iff.mpr marks
          rw [Sign.ofChar?_char] at mark
          rw [Option.some.inj mark]

end Spelling

theorem read_eq_ok_iff
    {text : String}
    {term : Term} :
    read text = .ok term ↔ ∃ spelling : Spelling, spelling.Spells text ∧ spelling.term = term := by
  have spells : ∀ spelling : Spelling,
      spelling.Spells text ↔ spelling.WellFormed ∧ spelling.chars = text.toList := by
    intro spelling
    rw [Spelling.Spells, ← String.toList_inj, String.toList_ofList]
  have accepted : read text = .ok term ↔ ofChars? text.toList = some term := by
    unfold read
    cases ofChars? text.toList <;> simp
  rw [accepted, ofChars?_eq_some_iff_spelling]
  simp only [spells, and_assoc]

/-- A text is read as a term exactly when the grammar spells it.  The spelling is
the only one, and the term is what it denotes.  For any other text the error
names the text itself. -/
theorem read_iff_spells (text : String) :
    ((∃ term, read text = .ok term) ↔ ∃ spelling : Spelling, spelling.Spells text) ∧
    (∀ first second : Spelling, first.Spells text → second.Spells text → first = second) ∧
    (∀ (spelling : Spelling) term, spelling.Spells text → read text = .ok term →
      spelling.Denotes term) ∧
    ∀ error, read text = .error error ↔
      (¬∃ spelling : Spelling, spelling.Spells text) ∧ error = .notTerm text := by
  have accepted : (∃ term, read text = .ok term) ↔
      ∃ spelling : Spelling, spelling.Spells text := by
    constructor
    · rintro ⟨term, isRead⟩
      obtain ⟨spelling, spells, _⟩ := read_eq_ok_iff.mp isRead
      exact ⟨spelling, spells⟩
    · rintro ⟨spelling, spells⟩
      exact ⟨spelling.term, read_eq_ok_iff.mpr ⟨spelling, spells, rfl⟩⟩
  have unique : ∀ first second : Spelling,
      first.Spells text → second.Spells text → first = second := by
    intro first second firstSpells secondSpells
    exact Spelling.eq_of_chars_eq firstSpells.1 secondSpells.1
      (String.ofList_injective (firstSpells.2.trans secondSpells.2.symm))
  refine ⟨accepted, unique, ?_, ?_⟩
  · intro spelling term spells isRead
    obtain ⟨other, otherSpells, rfl⟩ := read_eq_ok_iff.mp isRead
    rw [unique spelling other spells otherSpells]
    exact other.denotes_term
  · intro error
    rw [← accepted]
    unfold read
    cases ofChars? text.toList <;> simp [eq_comm]

theorem read_iff_spells_blanks :
    let spelling : Spelling :=
      ⟨some .minus, [' ', '\t'], ⟨some ⟨['0', '7'], ['5', '0']⟩, ['a', 'b'], ['0', '2']⟩⟩
    spelling.Spells "- \t07.50ab^02" ∧
      ∃ term, read "- \t07.50ab^02" = .ok term ∧ spelling.Denotes term := by
  intro spelling
  have monomialWellFormed : spelling.monomial.WellFormed := by
    refine ⟨?_, List.all_eq_true.mp rfl, List.all_eq_true.mp rfl, nofun, nofun⟩
    rintro numeral ⟨⟩
    exact ⟨List.cons_ne_nil _ _, List.all_eq_true.mp rfl, List.all_eq_true.mp rfl⟩
  have spells : spelling.Spells "- \t07.50ab^02" :=
    ⟨⟨List.all_eq_true.mp rfl, nofun, monomialWellFormed⟩, rfl⟩
  obtain ⟨term, isRead⟩ := (read_iff_spells "- \t07.50ab^02").1.mpr ⟨spelling, spells⟩
  exact ⟨spells, term, isRead, (read_iff_spells "- \t07.50ab^02").2.2.1 spelling term spells isRead⟩

example : read "2x^" = .error (.notTerm "2x^") := by decide

end Term
end CanonicalEquation
