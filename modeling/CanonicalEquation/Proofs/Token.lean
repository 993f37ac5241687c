import CanonicalEquation.Proofs.Text.Words
import CanonicalEquation.Token

/-!
# Scanning written tokens

The tokens that a text can have are those that are read back from their own
text.  Such tokens, written with single spaces between them, are scanned
again.
-/

namespace CanonicalEquation
namespace Token

/-- The tokens that stand for a word. -/
structure IsWord (token : Token) : Prop where
  nonempty : token.text.toList ≠ []
  solid : Text.Solid Text.isBlank token.text.toList
  readBack : ofText token.text = token

@[simp] theorem text_sign (sign : Sign) : (Token.sign sign).text = sign.text := rfl

@[simp] theorem text_literal (word : String) : (literal word).text = word := rfl

@[simp] theorem text_ofText (word : String) : (ofText word).text = word := by
  unfold ofText
  split
  next plus => exact plus.symm
  · split
    next minus => exact minus.symm
    · split
      next equals => exact equals.symm
      · split
        next times => exact times.symm
        · rfl

theorem isWord_of_char
    {token : Token}
    {c : Char}
    (text : token.text.toList = [c])
    (notBlank : Text.isBlank c = false)
    (readBack : ofText token.text = token) : token.IsWord := by
  refine ⟨?_, ?_, readBack⟩
  · rw [text]
    exact List.cons_ne_nil _ _
  · rw [text]
    exact Text.solid_singleton notBlank

theorem isWord_sign (sign : Sign) : (Token.sign sign).IsWord := by
  have text : (Token.sign sign).text.toList = [sign.char] := String.toList_ofList
  cases sign with
  | plus => exact isWord_of_char text rfl (by decide)
  | minus => exact isWord_of_char text rfl (by decide)

theorem isWord_equals : equals.IsWord := by
  have text : equals.text.toList = ['='] := by decide
  exact isWord_of_char text rfl (by decide)

theorem isWord_times : times.IsWord := by
  have text : times.text.toList = ['*'] := by decide
  exact isWord_of_char text rfl (by decide)

/-- A word that is none of the operators stands for a literal. -/
theorem isWord_literal
    {word : List Char}
    (nonempty : word ≠ [])
    (solid : Text.Solid Text.isBlank word)
    (notOperator : ∀ c, word = [c] → c ≠ '+' ∧ c ≠ '-' ∧ c ≠ '=' ∧ c ≠ '*') :
    (literal (String.ofList word)).IsWord := by
  refine ⟨by simpa using nonempty, by simpa using solid, ?_⟩
  have different : ∀ c, (c = '+' ∨ c = '-' ∨ c = '=' ∨ c = '*') →
      String.ofList word ≠ String.ofList [c] := by
    intro c operator equal
    have single : word = [c] := String.ofList_injective equal
    have other := notOperator c single
    simp only [other, or_self] at operator
  rw [text_literal, ofText, if_neg (different '+' (by simp)), if_neg (different '-' (by simp)),
    if_neg (different '=' (by simp)), if_neg (different '*' (by simp))]

theorem hasParenthesis_of_notLiteral
    {token : Token}
    (notLiteral : ∀ text, token ≠ literal text) : token.hasParenthesis = false := by
  cases token with
  | literal text => exact absurd rfl (notLiteral text)
  | sign sign => rfl
  | equals => rfl
  | times => rfl

theorem hasParenthesis_literal_eq_false_iff
    {text : String} :
    (literal text).hasParenthesis = false ↔ ∀ c ∈ text.toList, c ≠ '(' ∧ c ≠ ')' := by
  simp [hasParenthesis]

/-- Every token of a text stands for a word. -/
theorem isWord_of_mem_scan
    {text : String}
    {token : Token}
    (member : token ∈ scan text) : token.IsWord := by
  obtain ⟨word, inWords, rfl⟩ := List.mem_map.mp member
  obtain ⟨nonempty, solid⟩ := Text.solid_of_mem_words inWords
  refine ⟨?_, ?_, ?_⟩
  · simpa using nonempty
  · simpa using solid
  · rw [text_ofText]

theorem hasParenthesis_eq_false_of_text
    {token : Token}
    (plain : ∀ c ∈ token.text.toList, c ≠ '(' ∧ c ≠ ')') : token.hasParenthesis = false := by
  cases token with
  | literal word => exact hasParenthesis_literal_eq_false_iff.mpr plain
  | sign sign => rfl
  | equals => rfl
  | times => rfl

/-- The tokens of a text without parentheses have none. -/
theorem plain_of_mem_scan
    {text : String}
    (plain : ∀ c ∈ text.toList, c ≠ '(' ∧ c ≠ ')') :
    ∀ token ∈ scan text, token.hasParenthesis = false := by
  intro token member
  obtain ⟨word, inWords, rfl⟩ := List.mem_map.mp member
  apply hasParenthesis_eq_false_of_text
  rw [text_ofText, String.toList_ofList]
  exact fun c inWord => plain c (Text.subset_of_mem_words inWords inWord)

theorem toList_spacedText (tokens : List Token) :
    (spacedText tokens).toList = [' '].intercalate (tokens.map fun token => token.text.toList) := by
  rw [spacedText, String.toList_intercalate, List.map_map]
  rfl

/-- Groups of tokens that are written with single spaces between them are
written as their tokens. -/
theorem spacedText_flatten
    {groups : List (List Token)}
    (nonempty : ∀ group ∈ groups, group ≠ []) :
    " ".intercalate (groups.map spacedText) = spacedText groups.flatten := by
  induction groups with
  | nil => rfl
  | cons first rest inductionHypothesis =>
      obtain ⟨firstNonempty, restNonempty⟩ := List.forall_mem_cons.mp nonempty
      rw [List.map_cons, List.flatten_cons]
      cases rest with
      | nil => rw [List.map_nil, String.intercalate_singleton, List.flatten_nil, List.append_nil]
      | cons second others =>
          have latter : (second :: others).flatten.map text ≠ [] := by
            have secondNonempty := restNonempty second List.mem_cons_self
            simp [secondNonempty]
          have former : first.map text ≠ [] := by simpa using firstNonempty
          rw [String.intercalate_cons_of_ne_nil (by simp), inductionHypothesis restNonempty,
            spacedText, spacedText, spacedText, List.map_append,
            String.intercalate_append_of_ne_nil former latter]

/-- Tokens that are written with single spaces between them are scanned
again. -/
theorem scan_spacedText
    {tokens : List Token}
    (areWords : ∀ token ∈ tokens, token.IsWord) : scan (spacedText tokens) = tokens := by
  rw [scan, toList_spacedText, Text.words_intercalate (by decide),
    List.filter_eq_self.mpr, List.map_map]
  · refine (List.map_congr_left fun token member => ?_).trans (List.map_id tokens)
    rw [Function.comp_apply, String.ofList_toList, id, (areWords token member).readBack]
  · intro piece member
    obtain ⟨token, inTokens, rfl⟩ := List.mem_map.mp member
    simpa using (areWords token inTokens).nonempty
  · intro piece member
    obtain ⟨token, inTokens, rfl⟩ := List.mem_map.mp member
    exact (areWords token inTokens).solid

end Token
end CanonicalEquation
