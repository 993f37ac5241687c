import CanonicalEquation.Text
import Mathlib.Data.List.Induction
import Mathlib.Data.List.TakeWhile

/-!
# Words of a spaced text

The words of a text are cut at its blanks, so the words of two texts with a
blank between them are the words of the one and then of the other.  From this
law, the words of a text that is written from solid pieces with single spaces
are the pieces that are not empty.
-/

namespace CanonicalEquation
namespace Text

variable {blank : Char → Bool}

/-- A piece of text without blanks. -/
def Solid (blank : Char → Bool) (piece : List Char) : Prop :=
  ∀ c ∈ piece, blank c = false

theorem solid_singleton
    {c : Char}
    (notBlank : blank c = false) : Solid blank [c] :=
  List.forall_mem_singleton.mpr notBlank

theorem Solid.append
    {former latter : List Char}
    (formerSolid : Solid blank former)
    (latterSolid : Solid blank latter) :
    Solid blank (former ++ latter) := by
  intro c member
  rcases List.mem_append.mp member with inFormer | inLatter
  · exact formerSolid c inFormer
  · exact latterSolid c inLatter

/-- A piece without blanks has no blanks of the term grammar either. -/
theorem Solid.isTermBlank
    {piece : List Char}
    (solid : Solid isBlank piece) : Solid isTermBlank piece := by
  intro c member
  by_contra termBlank
  have blank := isBlank_of_isTermBlank (by simpa using termBlank)
  simp [solid c member] at blank

@[simp] theorem words_nil (blank : Char → Bool) : words blank [] = [] := by
  simp [words, List.splitOnP_nil]

/-- Words are cut at every blank. -/
theorem words_append_cons
    {c : Char}
    (former latter : List Char)
    (isBlankHere : blank c = true) :
    words blank (former ++ c :: latter) = words blank former ++ words blank latter := by
  unfold words
  rw [List.splitOnP_append_cons former latter isBlankHere, List.filter_append]

theorem words_cons_of_blank
    {c : Char}
    (text : List Char)
    (isBlankHere : blank c = true) : words blank (c :: text) = words blank text := by
  simpa using words_append_cons [] text isBlankHere

theorem words_concat_of_blank
    {c : Char}
    (text : List Char)
    (isBlankHere : blank c = true) : words blank (text ++ [c]) = words blank text := by
  simpa using words_append_cons text [] isBlankHere

/-- A solid piece is one word, unless it is empty. -/
theorem words_of_solid
    {piece : List Char}
    (solid : Solid blank piece) :
    words blank piece = [piece].filter fun word => !word.isEmpty := by
  rw [words, List.splitOnP_eq_singleton solid]

/-- A text that is empty or begins with a blank, so that a word in front of it ends
there. -/
def EndsWord (blank : Char → Bool) (text : List Char) : Prop :=
  ∀ c ∈ text.head?, blank c = true

theorem endsWord_append
    {blanks : List Char}
    (nonempty : blanks ≠ [])
    (areBlank : ∀ c ∈ blanks, blank c = true)
    (rest : List Char) : EndsWord blank (blanks ++ rest) := by
  obtain ⟨first, others, rfl⟩ := List.exists_cons_of_ne_nil nonempty
  rintro c ⟨⟩
  exact areBlank first List.mem_cons_self

theorem words_blanks_append
    {blanks : List Char}
    (areBlank : ∀ c ∈ blanks, blank c = true)
    (text : List Char) : words blank (blanks ++ text) = words blank text := by
  induction blanks with
  | nil => rfl
  | cons first rest inductionHypothesis =>
      obtain ⟨firstBlank, restBlank⟩ := List.forall_mem_cons.mp areBlank
      rw [List.cons_append, words_cons_of_blank _ firstBlank, inductionHypothesis restBlank]

/-- A solid piece is the first word where a word in front of the rest ends. -/
theorem words_append_of_endsWord
    {piece rest : List Char}
    (nonempty : piece ≠ [])
    (solid : Solid blank piece)
    (ends : EndsWord blank rest) : words blank (piece ++ rest) = piece :: words blank rest := by
  have alone : words blank piece = [piece] := by simp [words_of_solid solid, nonempty]
  cases rest with
  | nil => rw [List.append_nil, alone, words_nil]
  | cons first others =>
      have firstBlank : blank first = true := ends first rfl
      rw [words_append_cons _ _ firstBlank, words_cons_of_blank _ firstBlank, alone,
        List.singleton_append]

/-- A text is blank, or it has a first word, which blanks may stand in front of. -/
theorem blank_or_exists_first_word
    (blank : Char → Bool)
    (text : List Char) :
    (∀ c ∈ text, blank c = true) ∨
      ∃ blanks word rest, text = blanks ++ (word ++ rest) ∧ (∀ c ∈ blanks, blank c = true) ∧
        word ≠ [] ∧ Solid blank word ∧ EndsWord blank rest := by
  cases body : text.dropWhile blank with
  | nil => exact .inl (List.dropWhile_eq_nil_iff.mp body)
  | cons first behind =>
      right
      have firstSolid : blank first = false := by
        simpa [body] using List.head?_dropWhile_not blank text
      refine ⟨text.takeWhile blank, first :: behind.takeWhile fun c => !blank c,
        behind.dropWhile fun c => !blank c, ?_, fun c member => List.mem_takeWhile_imp member,
        List.cons_ne_nil _ _, ?_, ?_⟩
      · rw [List.cons_append, List.takeWhile_append_dropWhile, ← body,
          List.takeWhile_append_dropWhile]
      · exact List.forall_mem_cons.mpr ⟨firstSolid, fun c member => by
          simpa using List.mem_takeWhile_imp member⟩
      · intro c head
        have stops := List.head?_dropWhile_not (fun c => !blank c) behind
        rw [Option.mem_def.mp head] at stops
        simpa using stops

/-- Only a blank text has no words. -/
theorem words_eq_nil_iff
    {text : List Char} : words blank text = [] ↔ ∀ c ∈ text, blank c = true := by
  constructor
  · intro noWords
    rcases blank_or_exists_first_word blank text with
      areBlank | ⟨blanks, word, rest, rfl, areBlank, nonempty, solid, ends⟩
    · exact areBlank
    · rw [words_blanks_append areBlank, words_append_of_endsWord nonempty solid ends] at noWords
      cases noWords
  · intro areBlank
    rw [← List.append_nil text, words_blanks_append areBlank, words_nil]

/-- In front of the first word of a text stand blanks, and what is behind it has
the other words. -/
theorem exists_of_words_eq_cons
    {text word : List Char}
    {others : List (List Char)}
    (cut : words blank text = word :: others) :
    ∃ blanks rest, text = blanks ++ (word ++ rest) ∧ (∀ c ∈ blanks, blank c = true) ∧
      EndsWord blank rest ∧ words blank rest = others := by
  rcases blank_or_exists_first_word blank text with
    areBlank | ⟨blanks, first, rest, rfl, areBlank, nonempty, solid, ends⟩
  · rw [words_eq_nil_iff.mpr areBlank] at cut
    cases cut
  · rw [words_blanks_append areBlank, words_append_of_endsWord nonempty solid ends] at cut
    obtain ⟨rfl, rfl⟩ := List.cons.inj cut
    exact ⟨blanks, rest, rfl, areBlank, ends, rfl⟩

/-- What stands between the blanks of a text is the text without them. -/
theorem flatten_splitOnP
    (blank : Char → Bool)
    (text : List Char) :
    (text.splitOnP blank).flatten = text.filter fun c => !blank c := by
  induction text with
  | nil => rw [List.splitOnP_nil]; rfl
  | cons first rest inductionHypothesis =>
      rw [List.splitOnP_cons_eq_if_modifyHead]
      by_cases blankHere : blank first = true
      · rw [if_pos blankHere, List.flatten_cons, List.nil_append, inductionHypothesis,
          List.filter_cons_of_neg (by simp [blankHere])]
      · obtain ⟨head, tail, split⟩ :=
          List.exists_cons_of_ne_nil (List.splitOnP_ne_nil blank rest)
        rw [split, List.flatten_cons] at inductionHypothesis
        rw [if_neg blankHere, split, List.modifyHead_cons, List.flatten_cons, List.cons_append,
          inductionHypothesis, List.filter_cons_of_pos (by simp [blankHere])]

/-- The pieces between the blanks of a text have the characters of the text that
are not blank. -/
theorem mem_of_mem_splitOnP
    {text piece : List Char}
    (member : piece ∈ text.splitOnP blank)
    {c : Char}
    (inPiece : c ∈ piece) : c ∈ text ∧ blank c = false := by
  have inPieces : c ∈ (text.splitOnP blank).flatten :=
    List.mem_flatten.mpr ⟨piece, member, inPiece⟩
  rw [flatten_splitOnP, List.mem_filter] at inPieces
  simpa using inPieces

/-- Every character of a text that is not blank is in a word. -/
theorem exists_mem_words
    {text : List Char}
    {c : Char}
    (member : c ∈ text)
    (notBlank : blank c = false) : ∃ word ∈ words blank text, c ∈ word := by
  have inPieces : c ∈ (text.splitOnP blank).flatten := by
    rw [flatten_splitOnP]
    exact List.mem_filter.mpr ⟨member, by simp [notBlank]⟩
  obtain ⟨word, inSplit, inWord⟩ := List.mem_flatten.mp inPieces
  exact ⟨word, List.mem_filter.mpr ⟨inSplit, by simp [List.ne_nil_of_mem inWord]⟩, inWord⟩

/-- Only which characters of a text are blank matters for its words. -/
theorem words_congr
    {other : Char → Bool}
    {text : List Char}
    (same : ∀ c ∈ text, blank c = other c) : words blank text = words other text := by
  have pieces : text.splitOnP blank = text.splitOnP other := by
    induction text with
    | nil => rw [List.splitOnP_nil, List.splitOnP_nil]
    | cons first rest inductionHypothesis =>
        rw [List.splitOnP_cons_eq_if_modifyHead, List.splitOnP_cons_eq_if_modifyHead,
          same first List.mem_cons_self,
          inductionHypothesis fun c member => same c (List.mem_cons_of_mem _ member)]
  rw [words, words, pieces]

/-- Every word is solid, and none is empty. -/
theorem solid_of_mem_words
    {text word : List Char}
    (member : word ∈ words blank text) : word ≠ [] ∧ Solid blank word := by
  obtain ⟨inPieces, nonempty⟩ := List.mem_filter.mp member
  exact ⟨by simpa using nonempty, fun c inWord => (mem_of_mem_splitOnP inPieces inWord).2⟩

/-- A word has characters of its text only. -/
theorem subset_of_mem_words
    {text word : List Char}
    (member : word ∈ words blank text) : word ⊆ text := fun _ inWord =>
  (mem_of_mem_splitOnP (List.mem_filter.mp member).1 inWord).1

/-- A text whose blanks are blanks of the term grammar has the same words for
both. -/
theorem words_isTermBlank
    {text : List Char}
    (blanks : ∀ c ∈ text, isBlank c = true → isTermBlank c = true) :
    words isTermBlank text = words isBlank text :=
  words_congr fun c member =>
    Bool.eq_iff_iff.mpr ⟨isBlank_of_isTermBlank, blanks c member⟩

theorem mem_intercalate
    {pieces : List (List Char)}
    {c : Char}
    (member : c ∈ [' '].intercalate pieces) : c = ' ' ∨ ∃ piece ∈ pieces, c ∈ piece := by
  induction pieces with
  | nil => cases member
  | cons first rest inductionHypothesis =>
      cases rest with
      | nil =>
          rw [List.intercalate_singleton] at member
          exact .inr ⟨first, List.mem_singleton_self first, member⟩
      | cons second others =>
          rw [List.intercalate_cons_cons, List.mem_append, List.mem_append] at member
          rcases member with (inFirst | isSpace) | inRest
          · exact .inr ⟨first, List.mem_cons_self, inFirst⟩
          · exact .inl (List.mem_singleton.mp isSpace)
          · rcases inductionHypothesis inRest with isSpace | ⟨piece, inPieces, inPiece⟩
            · exact .inl isSpace
            · exact .inr ⟨piece, List.mem_cons_of_mem _ inPieces, inPiece⟩

/-- The words of solid pieces with single spaces between them are the pieces
that are not empty. -/
theorem words_intercalate
    (spaceBlank : blank ' ' = true)
    (pieces : List (List Char))
    (solid : ∀ piece ∈ pieces, Solid blank piece) :
    words blank ([' '].intercalate pieces) = pieces.filter fun piece => !piece.isEmpty := by
  induction pieces with
  | nil => simp
  | cons first rest inductionHypothesis =>
      have firstSolid := solid first List.mem_cons_self
      have restWords := inductionHypothesis fun piece member =>
        solid piece (List.mem_cons_of_mem _ member)
      cases rest with
      | nil => rw [List.intercalate_singleton, words_of_solid firstSolid]
      | cons second others =>
          rw [List.intercalate_cons_of_ne_nil (List.cons_ne_nil _ _), List.append_assoc,
            List.singleton_append, words_append_cons _ _ spaceBlank, restWords,
            words_of_solid firstSolid, ← List.filter_append, List.singleton_append]

theorem words_dropWhile
    (text : List Char)
    (blanks : ∀ c ∈ text, isBlank c = true → blank c = true) :
    words blank (text.dropWhile isBlank) = words blank text := by
  have areBlank : ∀ c ∈ text.takeWhile isBlank, blank c = true := fun c member =>
    blanks c (List.takeWhile_subset _ member) (List.mem_takeWhile_imp member)
  rw [← words_blanks_append areBlank, List.takeWhile_append_dropWhile]

theorem words_dropWhile_reverse
    (text : List Char)
    (blanks : ∀ c ∈ text, isBlank c = true → blank c = true) :
    words blank (text.reverse.dropWhile isBlank).reverse = words blank text := by
  induction text using List.reverseRecOn with
  | nil => rfl
  | append_singleton former last inductionHypothesis =>
      rw [List.reverse_append, List.reverse_singleton, List.singleton_append]
      by_cases blankHere : isBlank last = true
      · rw [List.dropWhile_cons_of_pos blankHere,
          words_concat_of_blank former (blanks last (by simp) blankHere)]
        exact inductionHypothesis fun c member => blanks c (by simp [member])
      · rw [List.dropWhile_cons_of_neg blankHere, List.reverse_cons, List.reverse_reverse]

/-- A text has the words of what is left when it is trimmed, if all its blanks
are blanks for the words. -/
theorem words_trim
    (text : List Char)
    (blanks : ∀ c ∈ text, isBlank c = true → blank c = true) :
    words blank (trim text) = words blank text := by
  unfold trim
  rw [words_dropWhile_reverse, words_dropWhile text blanks]
  intro c member
  exact blanks c ((List.dropWhile_sublist _).subset member)

theorem trim_append_of_blank
    (text : List Char)
    {ending : List Char}
    (blank : ∀ c ∈ ending, isBlank c = true) : trim (text ++ ending) = trim text := by
  unfold trim
  rw [List.dropWhile_append]
  split
  next allBlank =>
    have nothing : text.dropWhile isBlank = [] := by simpa using allBlank
    rw [nothing, List.dropWhile_eq_nil_iff.mpr blank]
  · rw [List.reverse_append, List.dropWhile_append_of_pos]
    exact fun c member => blank c (List.mem_reverse.mp member)

/-- What is trimmed has characters of its text only. -/
theorem trim_subset (text : List Char) : trim text ⊆ text := fun _ member =>
  List.dropWhile_subset _ (List.mem_reverse.mp
    (List.dropWhile_subset _ (List.mem_reverse.mp member)))

end Text
end CanonicalEquation
