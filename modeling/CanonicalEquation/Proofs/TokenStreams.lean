import CanonicalEquation.Proofs.Equation.Rendering
import CanonicalEquation.Proofs.Group.Words
import CanonicalEquation.Proofs.Text.Spacing

/-!
# Printed tokens

Tokens that are printed with single spaces are scanned again, if their literals
are words that no operator is.  The tokens of a text are such tokens, and opening
groups and moving everything to the left-hand side make such tokens from such
tokens.  So what one stage hands to the next can always be printed and read back.
-/

namespace CanonicalEquation

/-- The tokens that are read back from what is printed of them: all but a literal
that is empty, has a blank or is an operator. -/
def Token.IsPrintable : Token → Prop
  | literal word =>
      word ≠ "" ∧ (∀ c ∈ word.toList, Text.isBlank c = false) ∧
        word ≠ "+" ∧ word ≠ "-" ∧ word ≠ "=" ∧ word ≠ "*"
  | _ => True

instance : DecidablePred Token.IsPrintable
  | .literal word =>
      -- The characters of the word are tried, not all there are.
      letI : Decidable (∀ c ∈ word.toList, Text.isBlank c = false) := List.decidableBAll _ _
      inferInstanceAs (Decidable (word ≠ "" ∧ (∀ c ∈ word.toList, Text.isBlank c = false) ∧
        word ≠ "+" ∧ word ≠ "-" ∧ word ≠ "=" ∧ word ≠ "*"))
  | .sign _ => inferInstanceAs (Decidable True)
  | .equals => inferInstanceAs (Decidable True)
  | .times => inferInstanceAs (Decidable True)

/-- The printable tokens are those that stand for a word. -/
theorem Token.isPrintable_iff_isWord {token : Token} : token.IsPrintable ↔ token.IsWord := by
  cases token with
  | sign sign => exact iff_of_true trivial (isWord_sign sign)
  | equals => exact iff_of_true trivial isWord_equals
  | times => exact iff_of_true trivial isWord_times
  | literal word =>
      constructor
      · rintro ⟨nonempty, solid, notPlus, notMinus, notEquals, notTimes⟩
        refine ⟨String.toList_eq_nil_iff.not.mpr nonempty, solid, ?_⟩
        rw [text_literal, ofText, if_neg notPlus, if_neg notMinus, if_neg notEquals,
          if_neg notTimes]
      · rintro ⟨nonempty, solid, readBack⟩
        refine ⟨String.toList_eq_nil_iff.not.mp nonempty, solid, ?_, ?_, ?_, ?_⟩
        all_goals
          rintro rfl
          exact absurd readBack (by decide)

example : ¬(Token.literal "2x 1").IsPrintable ∧ ¬(Token.literal "-").IsPrintable := by decide

theorem Token.forall_isPrintable_iff {tokens : List Token} :
    (∀ token ∈ tokens, token.IsPrintable) ↔ ∀ token ∈ tokens, token.IsWord :=
  forall₂_congr fun _ _ => isPrintable_iff_isWord

/-- Moving everything to the left-hand side makes words from words. -/
theorem Equation.isWord_zeroForm
    {tokens : List Token}
    (areWords : ∀ token ∈ tokens, token.IsWord)
    {equation : Equation}
    (cut : Equation.ofTokens tokens = .ok equation) :
    ∀ token ∈ equation.zeroForm, token.IsWord := by
  rw [(ofTokens_eq_ok_iff.mp cut).1] at areWords
  obtain ⟨leftWords, rightWords⟩ := List.forall_mem_append.mp areWords
  exact List.forall_mem_append.mpr
    ⟨isWord_of_mem_append_subtract leftWords (List.forall_mem_cons.mp rightWords).2,
      fun token member => (isPlainWord_zeroTail token member).1⟩

/-- The tail of a summed equation has tokens of the equation only. -/
theorem SummedEquation.tail_subset
    {tokens : List Token}
    {summed : SummedEquation}
    (sums : SummedEquation.ofTokens tokens = .ok summed) : summed.tail ⊆ tokens := by
  unfold SummedEquation.ofTokens at sums
  split at sums
  · obtain ⟨terms, _, equal⟩ := bind_eq_ok_iff.mp sums
    cases equal
    exact List.dropWhile_subset _
  · cases sums

/-- The lists of tokens that the stages of the canonical form of a text hand on. -/
inductive IsStream (text : String) : List Token → Prop
  /-- The tokens of the text. -/
  | scanned : IsStream text (Token.scan text)
  /-- The tokens with the groups opened. -/
  | opened
      {opened : List Token}
      (opens : Group.openAll (Token.scan text) = .ok opened) : IsStream text opened
  /-- The tokens with everything moved to the left-hand side. -/
  | moved
      {opened : List Token}
      (opens : Group.openAll (Token.scan text) = .ok opened)
      {equation : Equation}
      (cut : Equation.ofTokens opened = .ok equation) : IsStream text equation.zeroForm
  /-- The tokens behind the left-hand side when that has been summed. -/
  | summed
      {opened : List Token}
      (opens : Group.openAll (Token.scan text) = .ok opened)
      {equation : Equation}
      (cut : Equation.ofTokens opened = .ok equation)
      {summed : SummedEquation}
      (sums : SummedEquation.ofTokens equation.zeroForm = .ok summed) :
      IsStream text summed.tail

/-- Every token that a stage hands on stands for a word. -/
theorem IsStream.isWord
    {text : String}
    {tokens : List Token}
    (stream : IsStream text tokens) : ∀ token ∈ tokens, token.IsWord := by
  cases stream with
  | scanned => exact fun token member => Token.isWord_of_mem_scan member
  | opened opens => exact Group.isWord_of_mem_openAll opens
  | moved opens cut => exact Equation.isWord_zeroForm (Group.isWord_of_mem_openAll opens) cut
  | summed opens cut sums =>
      have moved := Equation.isWord_zeroForm (Group.isWord_of_mem_openAll opens) cut
      exact fun token member => moved token (SummedEquation.tail_subset sums member)

/-- The tokens of a text with single spaces between them are the text without the
blanks at its ends and with its runs of blanks collapsed. -/
theorem Token.spacedText_scan (text : String) :
    spacedText (scan text) = String.ofList (Text.collapse (Text.trim text.toList)) := by
  have texts : (scan text).map (fun token => token.text.toList) =
      Text.words Text.isBlank text.toList := by
    rw [scan, List.map_map]
    refine (List.map_congr_left fun word _ => ?_).trans (List.map_id _)
    rw [Function.comp_apply, text_ofText, String.toList_ofList, id]
  rw [← Text.intercalate_words_eq_collapse_trim, ← texts, ← toList_spacedText,
    String.ofList_toList]

/-- Printable tokens are scanned again from what is printed of them.  The tokens of
a text are printable, and stay so when groups are opened and when everything is
moved to the left.  So a text is printed from its tokens with its blanks trimmed
and collapsed, and the tokens between any two stages are read back. -/
theorem scan_undoes_spacedText :
    (∀ tokens : List Token, (∀ token ∈ tokens, token.IsPrintable) →
      Token.scan (Token.spacedText tokens) = tokens) ∧
    (∀ text, ∀ token ∈ Token.scan text, token.IsPrintable) ∧
    (∀ tokens opened, (∀ token ∈ tokens, token.IsPrintable) →
      Group.openAll tokens = .ok opened → ∀ token ∈ opened, token.IsPrintable) ∧
    (∀ tokens equation, (∀ token ∈ tokens, token.IsPrintable) →
      Equation.ofTokens tokens = .ok equation →
        ∀ token ∈ equation.zeroForm, token.IsPrintable) ∧
    (∀ text, Token.spacedText (Token.scan text) =
      String.ofList (Text.collapse (Text.trim text.toList))) ∧
    ∀ text tokens, IsStream text tokens → Token.scan (Token.spacedText tokens) = tokens := by
  simp only [Token.forall_isPrintable_iff]
  refine ⟨fun tokens areWords => Token.scan_spacedText areWords,
    fun text token member => Token.isWord_of_mem_scan member,
    fun tokens opened areWords opens => Group.isWord_of_openAll areWords opens,
    fun tokens equation areWords cut => Equation.isWord_zeroForm areWords cut,
    Token.spacedText_scan, ?_⟩
  exact fun text tokens stream => Token.scan_spacedText stream.isWord

theorem scan_undoes_spacedText_group :
    let tokens : List Token :=
      [.literal "2x", .sign .minus, .literal "0.50", .times, .literal "(y", .sign .plus,
        .literal "1)", .equals, .literal "-z"]
    let opened : List Token :=
      [.literal "2x", .sign .minus, .literal "0.5y", .sign .minus, .literal "0.5", .equals,
        .literal "-z"]
    let equation : Equation :=
      ⟨[.literal "2x", .sign .minus, .literal "0.5y", .sign .minus, .literal "0.5"],
        [.literal "-z"]⟩
    (∀ token ∈ tokens, token.IsPrintable) ∧ Token.scan (Token.spacedText tokens) = tokens ∧
    Group.openAll tokens = .ok opened ∧ (∀ token ∈ opened, token.IsPrintable) ∧
    Equation.ofTokens opened = .ok equation ∧
      (∀ token ∈ equation.zeroForm, token.IsPrintable) ∧
    IsStream "2x - 0.50 * (y + 1)\t= -z" opened ∧
      Token.scan (Token.spacedText opened) = opened := by
  intro tokens opened equation
  obtain ⟨readBack, scannedPrintable, openedPrintable, movedPrintable, _, streamsReadBack⟩ :=
    scan_undoes_spacedText
  have scanned : Token.scan "2x - 0.50 * (y + 1)\t= -z" = tokens := by decide +kernel
  have printable : ∀ token ∈ tokens, token.IsPrintable := scanned ▸ scannedPrintable _
  have opens : Group.openAll tokens = .ok opened := by decide +kernel
  have cut : Equation.ofTokens opened = .ok equation :=
    Equation.ofTokens_eq_ok_iff.mpr ⟨rfl, by decide, by decide, List.cons_ne_nil _ _⟩
  have stream : IsStream "2x - 0.50 * (y + 1)\t= -z" opened := .opened (scanned ▸ opens)
  have stillPrintable := openedPrintable tokens opened printable opens
  exact ⟨printable, readBack tokens printable, opens, stillPrintable, cut,
    movedPrintable opened equation stillPrintable cut, stream, streamsReadBack _ opened stream⟩

end CanonicalEquation
