import CanonicalEquation.Proofs.NormalForm
import CanonicalEquation.Report

/-!
# The shape of a canonical form

A canonical form is `0 = 0`, or signed monomials in front of `= 0`.  The keys of
the monomials are distinct and in order, with a constant at the end, and their
numerals are written without superfluous zeros and only where they are needed.
No such text begins as the report on an error does, so a report tells by itself
whether its line has a canonical form.
-/

namespace CanonicalEquation

/-- The key that a monomial has as a term. -/
def Monomial.key (monomial : Monomial) : Key :=
  (monomial.toTerm .plus).key

/-- The word of the first monomial of a side, with its sign attached if that is
`-`. -/
def leadingWord (item : Sign × Monomial) : List Char :=
  if item.1 = .minus then '-' :: item.2.chars else item.2.chars

/-- The words of a later monomial of a side, its sign and itself. -/
def followingWords (item : Sign × Monomial) : List (List Char) :=
  [[item.1.char], item.2.chars]

/-- The text of an equation of signed monomials with zero, its words with single
spaces between them. -/
def writtenText
    (first : Sign × Monomial)
    (rest : List (Sign × Monomial)) : String :=
  String.ofList
    ([' '].intercalate (leadingWord first :: rest.flatMap followingWords ++ [['='], ['0']]))

/-- The signed monomials that a canonical form can be written with. -/
structure Shape
    (order : PowerOrder)
    (side : List (Sign × Monomial)) : Prop where
  /-- Each is a numeral alone, or letters that may have a numeral in front and
  an exponent behind. -/
  bodies : ∀ item ∈ side, item.2.WellFormed
  /-- No numeral has superfluous zeros or is zero, and none is one in front of
  letters. -/
  numerals : ∀ item ∈ side, ∀ numeral ∈ item.2.numeral,
    numeral.IsCanonical ∧ numeral.value ≠ 0 ∧ (item.2.letters ≠ [] → numeral.value ≠ 1)
  /-- No two have the same key. -/
  distinct : (side.map fun item => item.2.key).Nodup
  /-- None stands behind one that it has to precede. -/
  ordered : side.Pairwise fun former latter =>
    order.orderingOfKeys former.2.key latter.2.key ≠ .gt
  /-- With powers compared as texts, the order is strict. -/
  strict : order = .textual → side.Pairwise fun former latter =>
    order.orderingOfKeys former.2.key latter.2.key = .lt
  /-- Only the last may be a constant. -/
  constantLast : ∀ item ∈ side.dropLast, item.2.letters ≠ []

/-! ## The characters of a written equation -/

theorem mem_writtenText
    {first : Sign × Monomial}
    {rest : List (Sign × Monomial)}
    (wellFormed : ∀ item ∈ first :: rest, item.2.WellFormed)
    {c : Char}
    (member : c ∈ (writtenText first rest).toList) : c = ' ' ∨ c = '=' ∨ Term.occurs c = true := by
  have inBody : ∀ item ∈ first :: rest, c ∈ item.2.chars → Term.occurs c = true := by
    intro item inSide inChars
    simp [Term.occurs, Monomial.occurs_of_mem_chars (wellFormed item inSide) inChars]
  rw [writtenText, String.toList_ofList] at member
  rcases Text.mem_intercalate member with isSpace | ⟨word, inWords, inWord⟩
  · exact .inl isSpace
  · rcases List.mem_append.mp inWords with inSide | inTail
    · right
      right
      rcases List.mem_cons.mp inSide with rfl | inRest
      · unfold leadingWord at inWord
        split at inWord
        · rcases List.mem_cons.mp inWord with rfl | inChars
          · decide
          · exact inBody first List.mem_cons_self inChars
        · exact inBody first List.mem_cons_self inWord
      · obtain ⟨item, inItems, inPair⟩ := List.mem_flatMap.mp inRest
        rcases List.mem_cons.mp inPair with rfl | inLast
        · obtain rfl := List.mem_singleton.mp inWord
          cases item.1 <;> decide
        · obtain rfl := List.mem_singleton.mp inLast
          exact inBody item (List.mem_cons_of_mem _ inItems) inWord
    · rcases List.mem_cons.mp inTail with rfl | inZero
      · exact .inr (.inl (List.mem_singleton.mp inWord))
      · obtain rfl := List.mem_singleton.mp inZero
        obtain rfl := List.mem_singleton.mp inWord
        exact .inr (.inr (by decide))

/-! ## Canonical terms have the shape -/

/-- A term as a sign and a monomial. -/
def Term.signed (term : Term) : Sign × Monomial :=
  (term.sign, term.monomial)

theorem Term.key_monomial
    {term : Term}
    (wellFormed : term.WellFormed) : term.monomial.key = term.key :=
  (toTerm_monomial wellFormed .plus).1

/-- Canonical terms are written as their signed monomials. -/
theorem render_eq_writtenText
    {first : Term}
    {rest : List Term}
    (wellFormed : ∀ term ∈ first :: rest, term.WellFormed) :
    Equation.render (first :: rest) Equation.zeroTail =
      writtenText first.signed (rest.map Term.signed) := by
  obtain ⟨firstWellFormed, restWellFormed⟩ := List.forall_mem_cons.mp wellFormed
  have firstWord : first.leadingText.toList = leadingWord first.signed := by
    rw [Term.leadingText, leadingWord, Term.signed, Term.chars_monomial firstWellFormed]
    cases first.sign with
    | plus => rfl
    | minus => exact String.toList_append
  have restWords : (rest.flatMap Group.followingTokens).map (fun token => token.text.toList) =
      (rest.map Term.signed).flatMap followingWords := by
    rw [List.map_flatMap, List.flatMap_map]
    apply List.flatMap_congr
    intro term member
    rw [followingWords, Term.signed, Term.chars_monomial (restWellFormed term member)]
    exact congrArg (· :: _) String.toList_ofList
  rw [Equation.render_eq_spacedText, writtenText, ← String.ofList_toList (s := Token.spacedText _),
    Token.toList_spacedText, Equation.sideTokens, List.map_append, List.map_cons,
    Token.text_literal, firstWord, restWords]
  rfl

/-- The numeral of a term that has a value is written without superfluous zeros,
and only where it is needed. -/
theorem Term.numeral_of_made
    {term : Term}
    (wellFormed : term.WellFormed)
    (made : ofValue? term.key term.value = some term)
    {numeral : Numeral}
    (written : term.monomial.numeral = some numeral) :
    numeral.IsCanonical ∧ numeral.value ≠ 0 ∧ (term.monomial.letters ≠ [] → numeral.value ≠ 1) := by
  have value := value_writtenNumeral wellFormed
  change term.writtenNumeral = some numeral at written
  rw [written, Option.map_some, Option.getD_some] at value
  refine ⟨(isCanonical_of_mem_writtenNumeral written).2, ?_, fun letters => ?_⟩
  · intro zero
    rw [value, magnitude_of_ofValue? made, Decimal.abs_eq_abs, abs_eq_zero] at zero
    rw [ofValue?_eq_none_iff.mpr zero] at made
    cases made
  · rw [value]
    apply magnitude_ne_one_of_mem_writtenNumeral _ written
    rw [isConstant, String.isEmpty_eq_false_iff]
    exact fun empty => letters (String.toList_eq_nil_iff.mpr empty)

theorem Key.eq_constant
    {key : Key}
    (wellFormed : key.WellFormed)
    (noLetters : key.letters = "") : key = constant := by
  obtain ⟨letters, exponent, rfl, _, _, noExponent⟩ := wellFormed
  have lettersNil : letters = [] := String.ofList_injective noLetters
  rw [lettersNil, noExponent lettersNil]
  rfl

/-- Only the last of canonical terms may be a constant. -/
theorem IsCanonical.constant_last
    {order : PowerOrder}
    {terms : List Term}
    (canonical : IsCanonical order terms) : ∀ term ∈ terms.dropLast, term.key.letters ≠ "" := by
  intro term member noLetters
  obtain ⟨last, isLast⟩ := Option.ne_none_iff_exists'.mp
    (mt List.getLast?_eq_none_iff.mp (List.ne_nil_of_mem (List.mem_of_mem_dropLast member)))
  have inTerms := List.mem_of_getLast? isLast
  have cut := List.dropLast_append_getLast? last isLast
  have sorted := canonical.sorted
  have distinct := List.pairwise_map.mp canonical.distinct
  rw [← cut] at sorted distinct
  -- The last term has another key, so it has letters and belongs in front of a constant.
  have isConstant := Key.eq_constant
    (canonical.wellFormed term (List.mem_of_mem_dropLast member)).key_wellFormed noLetters
  have different := (List.pairwise_append.mp distinct).2.2 term member last
    (List.mem_singleton_self last)
  have before := (List.pairwise_append.mp sorted).2.2 term member last
    (List.mem_singleton_self last)
  have lastLetters : last.key.letters ≠ "" := fun none => different
    (isConstant.trans
      (Key.eq_constant (canonical.wellFormed last inTerms).key_wellFormed none).symm)
  rw [PowerOrder.orderingOfTerms, isConstant, order.orderingOfKeys_constant lastLetters] at before
  cases before

/-- With powers compared as texts, canonical terms are in strict order. -/
theorem IsCanonical.strict
    {terms : List Term}
    (canonical : IsCanonical .textual terms) :
    terms.Pairwise fun former latter => former.key < latter.key := by
  refine (canonical.sorted.and (List.pairwise_map.mp canonical.distinct)).imp ?_
  rintro former latter ⟨before, different⟩
  exact lt_of_le_of_ne (PowerOrder.isLE_textual_iff.mp before) different

/-- Canonical terms are written in the shape of a canonical form. -/
theorem IsCanonical.shape
    {order : PowerOrder}
    {terms : List Term}
    (canonical : IsCanonical order terms) : Shape order (terms.map Term.signed) := by
  have keys : ∀ term ∈ terms, term.signed.2.key = term.key := fun term member =>
    Term.key_monomial (canonical.wellFormed term member)
  have sameKeys : (terms.map Term.signed).map (fun item => item.2.key) = terms.map Term.key := by
    rw [List.map_map]
    exact List.map_congr_left keys
  refine ⟨?_, ?_, ?_, ?_, ?_, ?_⟩
  · refine List.forall_mem_map.mpr fun term member => ?_
    exact (Term.wellFormed_monomial (canonical.wellFormed term member)).1
  · refine List.forall_mem_map.mpr fun term member numeral written => ?_
    exact Term.numeral_of_made (canonical.wellFormed term member) (canonical.made term member)
      written
  · rw [sameKeys]
    exact canonical.distinct
  · refine List.pairwise_map.mpr (canonical.sorted.imp_of_mem ?_)
    intro former latter inFormer inLatter before
    rw [keys former inFormer, keys latter inLatter]
    exact Ordering.isLE_iff_ne_gt.mp before
  · rintro rfl
    refine List.pairwise_map.mpr (canonical.strict.imp_of_mem ?_)
    intro former latter inFormer inLatter before
    rw [keys former inFormer, keys latter inLatter]
    exact PowerOrder.orderingOfKeys_textual_eq_lt_iff.mpr before
  · rw [← List.map_dropLast]
    refine List.forall_mem_map.mpr fun term member none => ?_
    exact canonical.constant_last term member (String.toList_eq_nil_iff.mp none)

/-! ## The text of a canonical form -/

/-- A canonical form is written in its shape, with characters of terms, blanks
and the equality sign only. -/
theorem shape_of_canonicalForm
    {order : PowerOrder}
    {text canonical : String}
    (accepted : canonicalForm order text = .ok canonical) :
    (canonical = "0 = 0" ∨
      ∃ first rest, Shape order (first :: rest) ∧ canonical = writtenText first rest) ∧
    ∀ c ∈ canonical.toList, c = ' ' ∨ c = '=' ∨ Term.occurs c = true := by
  obtain ⟨terms, found, rfl⟩ := canonicalForm_eq_ok_iff.mp accepted
  have isCanonical := isCanonical_of_canonicalTerms found
  cases terms with
  | nil =>
      have digit : Term.occurs '0' = true := by decide
      have isZero : Equation.render [] Equation.zeroTail = "0 = 0" := by decide
      rw [isZero]
      exact ⟨.inl rfl, by simp [digit]⟩
  | cons first rest =>
      have shape := isCanonical.shape
      rw [render_eq_writtenText isCanonical.wellFormed]
      exact ⟨.inr ⟨first.signed, rest.map Term.signed, shape, rfl⟩,
        fun c member => mem_writtenText shape.bodies member⟩

/-- None of the characters of a term is a bracket or a `*`. -/
theorem ne_of_occurs
    {c : Char}
    (written : c = ' ' ∨ c = '=' ∨ Term.occurs c = true) :
    c ≠ '(' ∧ c ≠ ')' ∧ c ≠ '*' ∧ c ≠ '[' := by
  refine ⟨?_, ?_, ?_, ?_⟩ <;> (rintro rfl; exact absurd written (by decide))

/-! ## Reports tell their kind -/

/-- A text without brackets is not marked as an error. -/
theorem isMarked_eq_false
    {text : String}
    (noBracket : '[' ∉ text.toList) : Report.isMarked text = false := by
  rw [← Bool.not_eq_true, Report.isMarked, List.isPrefixOf_iff_prefix]
  rintro ⟨rest, equal⟩
  exact noBracket (equal ▸ List.mem_append_left rest (by decide))

/-- A report on an error is marked. -/
theorem isMarked_of_error
    {order : PowerOrder}
    {text : String}
    {error : Error}
    (failed : canonicalForm order text = .error error) :
    Report.isMarked (Report.ofLine order text) = true := by
  rw [Report.isMarked, Report.ofLine, failed, List.isPrefixOf_iff_prefix]
  refine ⟨(text ++ "[" ++ error.message ++ "]").toList, ?_⟩
  rw [← String.toList_append]
  simp only [String.append_assoc]

/-- Every canonical form has its shape, without parentheses and without `*`, and
does not begin as the report on an error does.  So a report is marked exactly
when there is no canonical form. -/
theorem canonicalForm_shape
    (order : PowerOrder)
    (text : String) :
    (∀ canonical, canonicalForm order text = .ok canonical →
      (canonical = "0 = 0" ∨
        ∃ first rest, Shape order (first :: rest) ∧ canonical = writtenText first rest) ∧
      (∀ c ∈ canonical.toList, c ≠ '(' ∧ c ≠ ')' ∧ c ≠ '*') ∧
      Report.isMarked canonical = false) ∧
    (Report.isMarked (Report.ofLine order text) = true ↔
      ∃ error, canonicalForm order text = .error error) := by
  have unmarked : ∀ canonical, canonicalForm order text = .ok canonical →
      Report.isMarked canonical = false := fun canonical accepted =>
    isMarked_eq_false fun member =>
      (ne_of_occurs ((shape_of_canonicalForm accepted).2 '[' member)).2.2.2 rfl
  refine ⟨fun canonical accepted => ?_, ?_, ?_⟩
  · obtain ⟨shape, written⟩ := shape_of_canonicalForm accepted
    refine ⟨shape, fun c member => ?_, unmarked canonical accepted⟩
    obtain ⟨opening, closing, times, _⟩ := ne_of_occurs (written c member)
    exact ⟨opening, closing, times⟩
  · intro marked
    cases result : canonicalForm order text with
    | error error => exact ⟨error, rfl⟩
    | ok canonical =>
        rw [Report.ofLine, result, unmarked canonical result] at marked
        cases marked
  · rintro ⟨error, failed⟩
    exact isMarked_of_error failed

/-- A canonical form with a kept group, a coefficient that is not written, a
tie between powers and a constant. -/
theorem canonicalForm_shape_tie :
    canonicalForm .numerical "x^02 + 0.5 = (x^2 - y)" = .ok "x^02 - x^2 + y + 0.5 = 0" ∧
      ((∃ first rest, Shape .numerical (first :: rest) ∧
          "x^02 - x^2 + y + 0.5 = 0" = writtenText first rest) ∧
        (∀ c ∈ "x^02 - x^2 + y + 0.5 = 0".toList, c ≠ '(' ∧ c ≠ ')' ∧ c ≠ '*') ∧
        Report.isMarked "x^02 - x^2 + y + 0.5 = 0" = false) := by
  have accepted : canonicalForm .numerical "x^02 + 0.5 = (x^2 - y)" =
      .ok "x^02 - x^2 + y + 0.5 = 0" := by decide +kernel
  obtain ⟨shape, plain⟩ := (canonicalForm_shape _ _).1 _ accepted
  exact ⟨accepted, shape.resolve_left (by decide), plain⟩

end CanonicalEquation
