import CanonicalEquation.Proofs.Group.Content
import CanonicalEquation.Proofs.Term.Grammar
import CanonicalEquation.Proofs.Text.Spacing

/-!
# The grammar of term sequences

A sequence is spelled with a first term, whose sign may be missing, and signed
monomials behind it, each divided by blanks from what is in front of it.  Blanks
may stand at both ends, and between a sign and its monomial.  A text is read as a
sequence exactly when it has such a spelling, with the terms that its pieces are
read as.  For any other text the error names the text without the blanks at its
ends.
-/

namespace CanonicalEquation
namespace Term

/-! ## Spellings -/

/-- A spelling with its sign attached to its monomial. -/
def Spelling.compact (spelling : Spelling) : Spelling :=
  { spelling with blanks := [] }

theorem Spelling.chars_compact (spelling : Spelling) :
    spelling.compact.chars = signChars spelling.sign ++ spelling.monomial.chars := rfl

theorem Spelling.WellFormed.compact
    {spelling : Spelling}
    (wellFormed : spelling.WellFormed) : spelling.compact.WellFormed :=
  ⟨List.forall_mem_nil _, fun _ => rfl, wellFormed.monomial_wellFormed⟩

/-- How a term behind another one is written. -/
structure LaterSpelling where
  /-- The blanks behind the term in front. -/
  divider : List Char
  /-- The sign. -/
  sign : Sign
  /-- The blanks between the sign and the monomial. -/
  blanks : List Char
  /-- What stands behind them. -/
  monomial : Monomial

namespace LaterSpelling

/-- The spelling of the term itself. -/
def spelling (later : LaterSpelling) : Spelling :=
  ⟨some later.sign, later.blanks, later.monomial⟩

/-- The characters of a later term with the blanks in front of it. -/
def chars (later : LaterSpelling) : List Char :=
  later.divider ++ later.spelling.chars

/-- A later term is divided from the term in front of it. -/
structure WellFormed (later : LaterSpelling) : Prop where
  divider_nonempty : later.divider ≠ []
  divider_areBlank : ∀ c ∈ later.divider, Text.isTermBlank c = true
  spelling_wellFormed : later.spelling.WellFormed

end LaterSpelling

/-- How a sequence of terms is written. -/
structure SequenceSpelling where
  /-- The blanks in front. -/
  front : List Char
  /-- The first term. -/
  first : Spelling
  /-- The terms behind it. -/
  later : List LaterSpelling
  /-- The blanks at the end. -/
  back : List Char

namespace SequenceSpelling

/-- The characters of a sequence. -/
def chars (spelling : SequenceSpelling) : List Char :=
  spelling.front ++ (spelling.first.chars ++
    (spelling.later.flatMap LaterSpelling.chars ++ spelling.back))

/-- The spellings of the sequence grammar. -/
structure WellFormed (spelling : SequenceSpelling) : Prop where
  front_areBlank : ∀ c ∈ spelling.front, Text.isTermBlank c = true
  first_wellFormed : spelling.first.WellFormed
  later_wellFormed : ∀ later ∈ spelling.later, later.WellFormed
  back_areBlank : ∀ c ∈ spelling.back, Text.isTermBlank c = true

/-- A text is written by a spelling of the sequence grammar. -/
def Spells (spelling : SequenceSpelling) (text : String) : Prop :=
  spelling.WellFormed ∧ String.ofList spelling.chars = text

/-- The texts of the terms: the first as it is written, and each later one with its
sign attached to its monomial. -/
def termTexts (spelling : SequenceSpelling) : List String :=
  String.ofList spelling.first.chars ::
    spelling.later.map fun later => String.ofList (later.sign.char :: later.monomial.chars)

/-- The terms that a sequence stands for. -/
def terms (spelling : SequenceSpelling) : List Term :=
  spelling.first.term :: spelling.later.map fun later => later.spelling.term

end SequenceSpelling

/-! ## One term in a text -/

/-- The words of a term in a text are joined to its spelling without blanks. -/
theorem attachSigns_words_spelling
    {spelling : Spelling}
    (wellFormed : spelling.WellFormed)
    {front behind : List Char}
    (frontBlank : ∀ c ∈ front, Text.isTermBlank c = true)
    (ends : Text.EndsWord Text.isTermBlank behind) :
    attachSigns (Text.words Text.isTermBlank (front ++ (spelling.chars ++ behind))) =
      spelling.compact.chars :: attachSigns (Text.words Text.isTermBlank behind) := by
  obtain ⟨sign, blanks, monomial⟩ := spelling
  obtain ⟨areBlank, blanksOfUnsigned, monomialWellFormed⟩ := wellFormed
  have nonempty := Monomial.chars_ne_nil monomialWellFormed
  have solid := (solid_signChars_append sign monomialWellFormed).isTermBlank
  rw [Text.words_blanks_append frontBlank]
  by_cases attached : blanks = []
  · subst attached
    have wordNonempty : signChars sign ++ monomial.chars ≠ [] := by simp [nonempty]
    rw [Spelling.chars, List.nil_append, Text.words_append_of_endsWord wordNonempty solid ends]
    exact attachSigns_word (signChars_append_ne_sign sign monomialWellFormed) _
  · cases sign with
    | none => exact absurd (blanksOfUnsigned rfl) attached
    | some sign =>
        have monomialSolid := (Monomial.solid_chars monomialWellFormed).isTermBlank
        have signSolid : Text.Solid Text.isTermBlank [sign.char] :=
          Text.solid_singleton (by cases sign <;> rfl)
        have blanksEnd := Text.endsWord_append attached areBlank (monomial.chars ++ behind)
        have split : Spelling.chars ⟨some sign, blanks, monomial⟩ ++ behind =
            [sign.char] ++ (blanks ++ (monomial.chars ++ behind)) := by
          simp [Spelling.chars, signChars]
        rw [split, Text.words_append_of_endsWord (List.cons_ne_nil _ _) signSolid blanksEnd,
          Text.words_blanks_append areBlank,
          Text.words_append_of_endsWord nonempty monomialSolid ends]
        exact attachSigns_sign sign monomial.chars _

/-- The first joined word of a text, if it is a term, is spelled in the text. -/
theorem exists_spelling_of_attachSigns
    {text joined : List Char}
    {others : List (List Char)}
    (cut : attachSigns (Text.words Text.isTermBlank text) = joined :: others)
    {term : Term}
    (read : ofChars? joined = some term) :
    ∃ (front behind : List Char) (spelling : Spelling),
      text = front ++ (spelling.chars ++ behind) ∧
      (∀ c ∈ front, Text.isTermBlank c = true) ∧ spelling.WellFormed ∧
      spelling.compact.chars = joined ∧ spelling.term = term ∧
      Text.EndsWord Text.isTermBlank behind ∧
      attachSigns (Text.words Text.isTermBlank behind) = others := by
  cases words : Text.words Text.isTermBlank text with
  | nil =>
      rw [words] at cut
      cases cut
  | cons word rest =>
      have solid : ∀ other ∈ word :: rest, Text.Solid Text.isTermBlank other :=
        fun other member => (Text.solid_of_mem_words (words ▸ member)).2
      obtain ⟨front, behind, rfl, frontBlank, ends, behindWords⟩ :=
        Text.exists_of_words_eq_cons words
      rw [words] at cut
      rcases attachSigns_cons_cases word rest with
        ⟨sign, next, later, rfl, rfl, isJoined⟩ | stays
      · obtain ⟨rfl, rfl⟩ := List.cons.inj (isJoined.symm.trans cut)
        obtain ⟨blanks, rest, rfl, areBlank, restEnds, rfl⟩ :=
          Text.exists_of_words_eq_cons behindWords
        rw [ofChars?_cons] at read
        obtain ⟨monomial, wellFormed, rfl, rfl⟩ :=
          (Group.ofSignedChars?_cons_eq_some_iff (solid next (by simp))).mp read
        exact ⟨front, rest, ⟨some sign, blanks, monomial⟩,
          by simp [Spelling.chars, signChars], frontBlank, ⟨areBlank, nofun, wellFormed⟩,
          rfl, rfl, restEnds, rfl⟩
      · obtain ⟨rfl, rfl⟩ := List.cons.inj (stays.symm.trans cut)
        obtain ⟨sign, monomial, wellFormed, rfl, rfl⟩ :=
          (ofChars?_eq_some_iff (solid word List.mem_cons_self)).mp read
        exact ⟨front, behind, ⟨sign, [], monomial⟩, rfl, frontBlank,
          ⟨List.forall_mem_nil _, fun _ => rfl, wellFormed⟩, rfl, rfl, ends,
          by rw [behindWords]⟩

/-! ## The terms behind the first -/

theorem endsWord_later
    {later : List LaterSpelling}
    (wellFormed : ∀ spelling ∈ later, spelling.WellFormed)
    {back : List Char}
    (backBlank : ∀ c ∈ back, Text.isTermBlank c = true) :
    Text.EndsWord Text.isTermBlank (later.flatMap LaterSpelling.chars ++ back) := by
  cases later with
  | nil => exact fun c first => backBlank c (List.mem_of_head? first)
  | cons next rest =>
      obtain ⟨nonempty, areBlank, _⟩ := wellFormed next List.mem_cons_self
      rw [List.flatMap_cons, LaterSpelling.chars, List.append_assoc, List.append_assoc]
      exact Text.endsWord_append nonempty areBlank _

/-- Later terms are read from their words. -/
theorem mapM_words_later
    {later : List LaterSpelling}
    (wellFormed : ∀ spelling ∈ later, spelling.WellFormed)
    {back : List Char}
    (backBlank : ∀ c ∈ back, Text.isTermBlank c = true) :
    (attachSigns (Text.words Text.isTermBlank
        (later.flatMap LaterSpelling.chars ++ back))).mapM ofSignedChars? =
      some (later.map fun spelling => spelling.spelling.term) := by
  induction later with
  | nil =>
      rw [List.flatMap_nil, List.nil_append, Text.words_eq_nil_iff.mpr backBlank]
      rfl
  | cons next rest inductionHypothesis =>
      obtain ⟨⟨_, areBlank, nextWellFormed⟩, restWellFormed⟩ := List.forall_mem_cons.mp wellFormed
      have read := Group.ofSignedChars?_monomial next.sign nextWellFormed.monomial_wellFormed
      rw [List.flatMap_cons, LaterSpelling.chars, List.append_assoc, List.append_assoc,
        attachSigns_words_spelling nextWellFormed areBlank
          (endsWord_later restWellFormed backBlank)]
      exact mapM_cons_eq_some_iff.mpr ⟨_, _, read, inductionHypothesis restWellFormed, rfl⟩

theorem attachSigns_eq_nil_iff {words : List (List Char)} : attachSigns words = [] ↔ words = [] := by
  cases words with
  | nil => exact Iff.rfl
  | cons word rest =>
      rcases attachSigns_cons_cases word rest with ⟨_, _, _, _, _, isJoined⟩ | stays
      · simp [isJoined]
      · simp [stays]

/-- A joined word with its sign written is spelled with a sign. -/
theorem Spelling.exists_sign_of_compact
    {spelling : Spelling}
    (wellFormed : spelling.WellFormed)
    {sign : Sign}
    {rest : List Char}
    (joined : spelling.compact.chars = sign.char :: rest) : spelling.sign = some sign := by
  rw [Spelling.chars_compact] at joined
  cases written : spelling.sign with
  | none =>
      rw [written] at joined
      exact absurd joined (chars_none_ne_chars_some wellFormed.monomial_wellFormed sign rest)
  | some other =>
      rw [written] at joined
      have sameChar : other.char = sign.char := (List.cons.inj joined).1
      rw [← Sign.ofChar?_char other, sameChar, Sign.ofChar?_char]

/-- Words that are read as later terms are spelled in a text in which a word in
front ends. -/
theorem exists_later_of_mapM
    {text : List Char}
    (ends : Text.EndsWord Text.isTermBlank text)
    {joined : List (List Char)}
    (cut : attachSigns (Text.words Text.isTermBlank text) = joined)
    {terms : List Term}
    (read : joined.mapM ofSignedChars? = some terms) :
    ∃ (later : List LaterSpelling) (back : List Char),
      text = later.flatMap LaterSpelling.chars ++ back ∧
      (∀ spelling ∈ later, spelling.WellFormed) ∧
      (∀ c ∈ back, Text.isTermBlank c = true) ∧
      terms = later.map fun spelling => spelling.spelling.term := by
  induction joined generalizing text terms with
  | nil =>
      cases read
      have blank := Text.words_eq_nil_iff.mp (attachSigns_eq_nil_iff.mp cut)
      exact ⟨[], text, rfl, List.forall_mem_nil _, blank, rfl⟩
  | cons word rest inductionHypothesis =>
      obtain ⟨first, others, firstRead, othersRead, rfl⟩ := mapM_cons_eq_some_iff.mp read
      obtain ⟨sign, chars, rfl⟩ := exists_sign_of_ofSignedChars? firstRead
      rw [← ofChars?_cons] at firstRead
      obtain ⟨divider, behind, spelling, rfl, areBlank, wellFormed, isJoined, rfl, behindEnds,
        behindCut⟩ := exists_spelling_of_attachSigns cut firstRead
      obtain ⟨later, back, rfl, laterWellFormed, backBlank, rfl⟩ :=
        inductionHypothesis behindEnds behindCut othersRead
      have signed := Spelling.exists_sign_of_compact wellFormed isJoined
      obtain ⟨_, blanks, monomial⟩ := spelling
      obtain rfl : _ = some sign := signed
      have divided : divider ≠ [] := by
        rintro rfl
        have signBlank : Text.isTermBlank sign.char = true := ends sign.char rfl
        cases sign <;> cases signBlank
      refine ⟨⟨divider, sign, blanks, monomial⟩ :: later, back, ?_,
        List.forall_mem_cons.mpr ⟨⟨divided, areBlank, wellFormed⟩, laterWellFormed⟩,
        backBlank, rfl⟩
      rw [List.flatMap_cons, LaterSpelling.chars, List.append_assoc, List.append_assoc]
      rfl

/-! ## Sequences -/

/-- The spellings of the grammar are all that is read as a sequence. -/
theorem sequence?_eq_some_iff_spelling
    {text : List Char}
    {terms : List Term} :
    sequence? text = some terms ↔
      ∃ spelling : SequenceSpelling, spelling.WellFormed ∧ spelling.chars = text ∧
        spelling.terms = terms := by
  constructor
  · intro read
    unfold sequence? at read
    cases cut : attachSigns (Text.words Text.isTermBlank text) with
    | nil =>
        rw [cut] at read
        cases read
    | cons word rest =>
        rw [cut] at read
        obtain ⟨first, others, firstRead, othersRead, rfl⟩ :=
          sequenceOfWords?_cons_eq_some_iff.mp read
        obtain ⟨front, behind, spelling, rfl, frontBlank, wellFormed, _, rfl, ends, behindCut⟩ :=
          exists_spelling_of_attachSigns cut firstRead
        obtain ⟨later, back, rfl, laterWellFormed, backBlank, rfl⟩ :=
          exists_later_of_mapM ends behindCut othersRead
        exact ⟨⟨front, spelling, later, back⟩,
          ⟨frontBlank, wellFormed, laterWellFormed, backBlank⟩, rfl, rfl⟩
  · rintro ⟨⟨front, first, later, back⟩,
      ⟨frontBlank, wellFormed, laterWellFormed, backBlank⟩, rfl, rfl⟩
    have firstRead := ofChars?_eq_some_iff_spelling.mpr ⟨_, wellFormed.compact, rfl, rfl⟩
    rw [sequence?, SequenceSpelling.chars,
      attachSigns_words_spelling wellFormed frontBlank (endsWord_later laterWellFormed backBlank)]
    exact sequenceOfWords?_cons_eq_some_iff.mpr
      ⟨_, _, firstRead, mapM_words_later laterWellFormed backBlank, rfl⟩

/-- The texts of the terms are read as the terms. -/
theorem SequenceSpelling.map_read_termTexts
    {spelling : SequenceSpelling}
    (wellFormed : spelling.WellFormed) :
    spelling.termTexts.map read = spelling.terms.map Except.ok := by
  have firstRead : read (String.ofList spelling.first.chars) = .ok spelling.first.term :=
    read_eq_ok_iff.mpr ⟨spelling.first, ⟨wellFormed.first_wellFormed, rfl⟩, rfl⟩
  have laterRead : ∀ later ∈ spelling.later,
      read (String.ofList (later.sign.char :: later.monomial.chars)) =
        .ok later.spelling.term := by
    intro later member
    have laterWellFormed := (wellFormed.later_wellFormed later member).spelling_wellFormed
    exact read_eq_ok_iff.mpr ⟨later.spelling.compact, ⟨laterWellFormed.compact, rfl⟩, rfl⟩
  rw [termTexts, terms, List.map_cons, List.map_cons, firstRead, List.map_map, List.map_map]
  exact congrArg _ (List.map_congr_left laterRead)

/-- A text that is spelled is read as the terms of its spelling. -/
theorem SequenceSpelling.Spells.readSequence_eq
    {spelling : SequenceSpelling}
    {text : String}
    (spells : spelling.Spells text) : readSequence text = .ok spelling.terms := by
  obtain ⟨wellFormed, rfl⟩ := spells
  rw [readSequence_eq_ok_iff, String.toList_ofList]
  exact sequence?_eq_some_iff_spelling.mpr ⟨spelling, wellFormed, rfl, rfl⟩

/-- A text is read as a sequence exactly when the grammar spells it.  Its terms are
then, one by one and in order, what the first term is read as where it is written,
and each later one with its sign attached to its monomial.  For any other text the
error names the text without the blanks at its ends; by `Text.trim_eq_iff` these
are all that is taken off. -/
theorem readSequence_iff_spells (text : String) :
    ((∃ terms, readSequence text = .ok terms) ↔
      ∃ spelling : SequenceSpelling, spelling.Spells text) ∧
    (∀ (spelling : SequenceSpelling) terms, spelling.Spells text →
      (readSequence text = .ok terms ↔ spelling.termTexts.map read = terms.map Except.ok)) ∧
    ∀ error, readSequence text = .error error ↔
      (¬∃ spelling : SequenceSpelling, spelling.Spells text) ∧
        error = .notTerm (String.ofList (Text.trim text.toList)) := by
  have accepted : (∃ terms, readSequence text = .ok terms) ↔
      ∃ spelling : SequenceSpelling, spelling.Spells text := by
    constructor
    · rintro ⟨terms, isRead⟩
      obtain ⟨spelling, wellFormed, chars, _⟩ :=
        sequence?_eq_some_iff_spelling.mp (readSequence_eq_ok_iff.mp isRead)
      exact ⟨spelling, wellFormed, by rw [chars, String.ofList_toList]⟩
    · rintro ⟨spelling, spells⟩
      exact ⟨spelling.terms, spells.readSequence_eq⟩
  refine ⟨accepted, ?_, ?_⟩
  · intro spelling terms spells
    have okInjective : Function.Injective (Except.ok : Term → Except Error Term) :=
      fun _ _ equal => Except.ok.inj equal
    rw [spells.readSequence_eq, SequenceSpelling.map_read_termTexts spells.1,
      (List.map_injective_iff.mpr okInjective).eq_iff, Except.ok.injEq]
  · intro error
    rw [← accepted]
    unfold readSequence
    cases sequence? text.toList <;> simp [eq_comm]

theorem readSequence_iff_spells_blanks :
    let spelling : SequenceSpelling :=
      { front := ['\t']
        first := ⟨some .minus, [' '], ⟨some ⟨['3'], ['5', '0']⟩, ['x', 'y'], ['0', '2']⟩⟩
        later :=
          [⟨[' ', '\r', '\n'], .plus, [' ', '\t'], ⟨some ⟨['7'], []⟩, [], []⟩⟩,
            ⟨[' '], .minus, [], ⟨none, ['z'], []⟩⟩]
        back := [' '] }
    let terms : List Term :=
      [⟨.minus, some (7 / 2), ⟨"xy", "^02"⟩⟩, ⟨.plus, some 7, ⟨"", ""⟩⟩,
        ⟨.minus, none, ⟨"z", ""⟩⟩]
    spelling.Spells "\t- 3.50xy^02 \r\n+ \t7 -z " ∧
      ["- 3.50xy^02", "+7", "-z"].map read = terms.map Except.ok ∧
      readSequence "\t- 3.50xy^02 \r\n+ \t7 -z " = .ok terms := by
  intro spelling terms
  have readBack : ∀ {monomial : Monomial},
      Monomial.ofChars? monomial.chars = some monomial → monomial.WellFormed :=
    fun found => (Monomial.ofChars?_eq_some_iff.mp found).1
  have firstWellFormed : spelling.first.WellFormed :=
    ⟨List.all_eq_true.mp rfl, nofun, readBack (by decide)⟩
  have laterWellFormed : ∀ later ∈ spelling.later, later.WellFormed :=
    List.forall_mem_cons.mpr
      ⟨⟨List.cons_ne_nil _ _, List.all_eq_true.mp rfl,
        List.all_eq_true.mp rfl, nofun, readBack (by decide)⟩,
      List.forall_mem_singleton.mpr ⟨List.cons_ne_nil _ _, List.all_eq_true.mp rfl,
        List.all_eq_true.mp rfl, nofun, readBack (by decide)⟩⟩
  have spells : spelling.Spells "\t- 3.50xy^02 \r\n+ \t7 -z " :=
    ⟨⟨List.all_eq_true.mp rfl, firstWellFormed, laterWellFormed, List.all_eq_true.mp rfl⟩, rfl⟩
  have piecesRead : ["- 3.50xy^02", "+7", "-z"].map read = terms.map Except.ok := by
    decide +kernel
  exact ⟨spells, piecesRead,
    ((readSequence_iff_spells _).2.1 spelling terms spells).mpr piecesRead⟩

example : readSequence " x +\t" = .error (.notTerm "x +") := by decide

end Term
end CanonicalEquation
