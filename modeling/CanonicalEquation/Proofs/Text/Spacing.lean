import CanonicalEquation.Proofs.Text.Characters
import CanonicalEquation.Proofs.Text.Words

/-!
# Single spaces

The words of a text with single spaces between them are the text again, without
the blanks at its ends and with one space in place of each run of blanks between
its words.
-/

namespace CanonicalEquation
namespace Text

/-- A text with one space in place of each run of blanks. -/
def collapse : List Char → List Char
  | [] => []
  | c :: rest =>
      if isBlank c then
        if rest.head?.any isBlank then collapse rest else ' ' :: collapse rest
      else
        c :: collapse rest

theorem collapse_append_of_solid
    {word : List Char}
    (solid : Solid isBlank word)
    (rest : List Char) : collapse (word ++ rest) = word ++ collapse rest := by
  induction word with
  | nil => rfl
  | cons first others inductionHypothesis =>
      obtain ⟨firstSolid, othersSolid⟩ := List.forall_mem_cons.mp solid
      rw [List.cons_append, collapse, if_neg (by simp [firstSolid]),
        inductionHypothesis othersSolid, List.cons_append]

/-- A run of blanks is one space. -/
theorem collapse_append_of_blank
    {blanks rest : List Char}
    (nonempty : blanks ≠ [])
    (areBlank : ∀ c ∈ blanks, isBlank c = true)
    (stops : StopsBefore isBlank rest) : collapse (blanks ++ rest) = ' ' :: collapse rest := by
  induction blanks with
  | nil => exact absurd rfl nonempty
  | cons first others inductionHypothesis =>
      obtain ⟨firstBlank, othersBlank⟩ := List.forall_mem_cons.mp areBlank
      rw [List.cons_append, collapse, if_pos firstBlank]
      cases others with
      | nil =>
          have last : rest.head?.any isBlank = false := by
            cases rest with
            | nil => rfl
            | cons next _ => exact stops next rfl
          rw [List.nil_append, if_neg (by simp [last])]
      | cons second behind =>
          have goesOn : (second :: behind ++ rest).head?.any isBlank = true :=
            othersBlank second List.mem_cons_self
          rw [if_pos goesOn, inductionHypothesis (List.cons_ne_nil _ _) othersBlank]

/-- A text that neither begins nor ends with a blank. -/
structure IsTrimmed (text : List Char) : Prop where
  begins : StopsBefore isBlank text
  ends : StopsBefore isBlank text.reverse

theorem IsTrimmed.reverse
    {text : List Char}
    (trimmed : IsTrimmed text) : IsTrimmed text.reverse :=
  ⟨trimmed.ends, by rw [List.reverse_reverse]; exact trimmed.begins⟩

/-- No blanks stand at the front of a trimmed text. -/
theorem IsTrimmed.blanks_eq_nil
    {blanks rest : List Char}
    (trimmed : IsTrimmed (blanks ++ rest))
    (areBlank : ∀ c ∈ blanks, isBlank c = true) : blanks = [] := by
  cases blanks with
  | nil => rfl
  | cons first others =>
      have firstSolid : isBlank first = false := trimmed.begins first rfl
      rw [areBlank first List.mem_cons_self] at firstSolid
      cases firstSolid

/-- No blanks stand at the end of a trimmed text. -/
theorem IsTrimmed.ending_eq_nil
    {former ending : List Char}
    (trimmed : IsTrimmed (former ++ ending))
    (areBlank : ∀ c ∈ ending, isBlank c = true) : ending = [] := by
  have reversed := trimmed.reverse
  rw [List.reverse_append] at reversed
  exact List.reverse_eq_nil_iff.mp
    (reversed.blanks_eq_nil fun c member => areBlank c (List.mem_reverse.mp member))

/-- The end of a trimmed text is trimmed if it does not begin with a blank. -/
theorem IsTrimmed.of_append
    {former latter : List Char}
    (trimmed : IsTrimmed (former ++ latter))
    (begins : StopsBefore isBlank latter) : IsTrimmed latter := by
  refine ⟨begins, fun c first => trimmed.ends c ?_⟩
  rw [List.reverse_append, List.head?_append, Option.mem_def.mp first]
  rfl

/-- The words of a trimmed text with single spaces between them are the text with
its runs of blanks collapsed. -/
theorem intercalate_words
    {text : List Char}
    (trimmed : IsTrimmed text) : [' '].intercalate (words isBlank text) = collapse text := by
  induction cut : words isBlank text generalizing text with
  | nil =>
      obtain rfl := @IsTrimmed.ending_eq_nil [] text trimmed (words_eq_nil_iff.mp cut)
      rfl
  | cons word others inductionHypothesis =>
      have wordSolid := (solid_of_mem_words (cut ▸ List.mem_cons_self)).2
      obtain ⟨blanks, rest, rfl, areBlank, wordEnds, rfl⟩ := exists_of_words_eq_cons cut
      obtain rfl := trimmed.blanks_eq_nil areBlank
      rw [List.nil_append] at trimmed ⊢
      rw [collapse_append_of_solid wordSolid]
      rcases blank_or_exists_first_word isBlank rest with
        restBlank | ⟨gap, next, behind, rfl, gapBlank, nextNonempty, nextSolid, nextEnds⟩
      · obtain rfl := trimmed.ending_eq_nil restBlank
        rw [words_nil, List.intercalate_singleton, collapse, List.append_nil]
      · have stops : StopsBefore isBlank (next ++ behind) := by
          obtain ⟨first, letters, rfl⟩ := List.exists_cons_of_ne_nil nextNonempty
          exact (stopsBefore_cons isBlank first _).mpr (nextSolid first List.mem_cons_self)
        have gapNonempty : gap ≠ [] := by
          rintro rfl
          obtain ⟨first, letters, rfl⟩ := List.exists_cons_of_ne_nil nextNonempty
          have firstBlank : isBlank first = true := wordEnds first rfl
          rw [nextSolid first List.mem_cons_self] at firstBlank
          cases firstBlank
        have restTrimmed : IsTrimmed (next ++ behind) := by
          rw [← List.append_assoc] at trimmed
          exact trimmed.of_append stops
        have restWords := words_blanks_append gapBlank (next ++ behind)
        rw [collapse_append_of_blank gapNonempty gapBlank stops,
          ← inductionHypothesis restTrimmed restWords.symm, restWords,
          words_append_of_endsWord nextNonempty nextSolid nextEnds, List.intercalate_cons_cons,
          List.append_assoc, List.singleton_append]

theorem stopsBefore_dropWhile (text : List Char) :
    StopsBefore isBlank (text.dropWhile isBlank) := by
  intro c first
  have stops := List.head?_dropWhile_not isBlank text
  rw [Option.mem_def.mp first] at stops
  exact stops

/-- Behind the blanks at the front of a text stands what is left when it is trimmed,
with the blanks at its end. -/
theorem exists_ending_of_dropWhile (text : List Char) :
    ∃ ending, (∀ c ∈ ending, isBlank c = true) ∧
      text.dropWhile isBlank = trim text ++ ending := by
  let reversed := (text.dropWhile isBlank).reverse
  refine ⟨(reversed.takeWhile isBlank).reverse,
    fun c member => List.mem_takeWhile_imp (List.mem_reverse.mp member), ?_⟩
  rw [trim, ← List.reverse_append, List.takeWhile_append_dropWhile, List.reverse_reverse]

/-- What is trimmed neither begins nor ends with a blank. -/
theorem isTrimmed_trim (text : List Char) : IsTrimmed (trim text) := by
  constructor
  · intro c first
    obtain ⟨ending, _, split⟩ := exists_ending_of_dropWhile text
    apply stopsBefore_dropWhile text c
    rw [split, List.head?_append, Option.mem_def.mp first]
    rfl
  · rw [trim, List.reverse_reverse]
    exact stopsBefore_dropWhile _

theorem IsTrimmed.trim_eq
    {text : List Char}
    (trimmed : IsTrimmed text) : trim text = text := by
  have front : text.dropWhile isBlank = text :=
    dropWhile_append_of_stopsBefore (List.forall_mem_nil _) trimmed.begins
  have back : text.reverse.dropWhile isBlank = text.reverse :=
    dropWhile_append_of_stopsBefore (List.forall_mem_nil _) trimmed.ends
  rw [trim, front, back, List.reverse_reverse]

/-- When a text is trimmed, all its blanks at both ends are taken off and nothing
else. -/
theorem trim_eq_iff
    {text body : List Char} :
    trim text = body ↔
      IsTrimmed body ∧ ∃ front back, text = front ++ (body ++ back) ∧
        (∀ c ∈ front, isBlank c = true) ∧ ∀ c ∈ back, isBlank c = true := by
  constructor
  · rintro rfl
    obtain ⟨ending, endingBlank, split⟩ := exists_ending_of_dropWhile text
    refine ⟨isTrimmed_trim text, text.takeWhile isBlank, ending, ?_,
      fun c member => List.mem_takeWhile_imp member, endingBlank⟩
    rw [← split, List.takeWhile_append_dropWhile]
  · rintro ⟨trimmed, front, back, rfl, frontBlank, backBlank⟩
    have frontDropped : trim (front ++ (body ++ back)) = trim (body ++ back) := by
      rw [trim, List.dropWhile_append_of_pos frontBlank, trim]
    rw [frontDropped, trim_append_of_blank body backBlank, trimmed.trim_eq]

/-- The words of a text with single spaces between them are the text without the
blanks at its ends and with its runs of blanks collapsed. -/
theorem intercalate_words_eq_collapse_trim (text : List Char) :
    [' '].intercalate (words isBlank text) = collapse (trim text) := by
  rw [← words_trim text fun _ _ blank => blank]
  exact intercalate_words (isTrimmed_trim text)

example : collapse (trim " \t2x  +\r\ny ".toList) = "2x + y".toList := by decide

end Text
end CanonicalEquation
