import CanonicalEquation.Proofs.Equation.SignedSequence
import CanonicalEquation.Proofs.Group.Content

/-!
# Two readers of term sequences

The content of a group is read from its characters, and a side of an equation
from its tokens.  A text that is a content is read as a side too, unless a sign
is attached to a term behind the first one, since such a sign divides terms in a
content only.  A side is a content if it has no parentheses and no two signs in
a row.
-/

namespace CanonicalEquation

/-- Whether a token is a literal that begins with a sign. -/
def Token.hasAttachedSign : Token → Bool
  | literal text => (text.toList.head?.bind Sign.ofChar?).isSome
  | _ => false

/-- Tokens without parentheses, and without a sign in front of another sign, be
it alone or attached. -/
structure Token.ArePlain (tokens : List Token) : Prop where
  noParenthesis : ∀ token ∈ tokens, token.hasParenthesis = false
  singleSigns : tokens.IsChain fun former latter =>
    former.isSign = true → latter.isSign = false ∧ latter.hasAttachedSign = false

namespace Side

/-- The literal at a position has its sign attached, and a term in front of
it. -/
structure AttachedAt (side : List Token) (position : Nat) (text : String) : Prop where
  found : side[position]? = some (.literal text)
  attached : (Token.literal text).hasAttachedSign = true
  behindTerm : (side.take position).any Token.isOperand = true

/-- The first literal behind a term that has its sign attached. -/
def FirstAttached (side : List Token) (position : Nat) (text : String) : Prop :=
  AttachedAt side position text ∧ ∀ earlier < position, ∀ other, ¬AttachedAt side earlier other

end Side

theorem Token.ArePlain.tail
    {token : Token}
    {rest : List Token}
    (plain : ArePlain (token :: rest)) : ArePlain rest :=
  ⟨fun other member => plain.noParenthesis other (List.mem_cons_of_mem _ member),
    plain.singleSigns.tail⟩

theorem Token.hasAttachedSign_monomial
    {monomial : Monomial}
    (wellFormed : monomial.WellFormed) :
    (literal (String.ofList monomial.chars)).hasAttachedSign = false := by
  rw [hasAttachedSign, String.toList_ofList, Monomial.unsigned_chars wellFormed]
  rfl

theorem Token.hasAttachedSign_signed
    (sign : Sign)
    (word : List Char) : (literal (String.ofList (sign.char :: word))).hasAttachedSign = true := by
  rw [hasAttachedSign, String.toList_ofList, List.head?_cons, Option.bind_some,
    Sign.ofChar?_char]
  rfl

/-- A sign alone is no literal of a text. -/
theorem Token.not_isWord_literal_sign (sign : Sign) : ¬(literal sign.text).IsWord := by
  intro isWord
  cases sign <;> exact absurd isWord.readBack (by decide)

namespace Group

/-! ## A text that is a content -/

theorem Following.solid
    {tokens : List Token}
    {terms : List Term}
    (following : Following tokens terms) :
    ∀ token ∈ tokens, Text.Solid Text.isBlank token.text.toList := by
  have solidSign : ∀ sign : Sign, Text.Solid Text.isBlank sign.text.toList := fun sign =>
    (Token.isWord_sign sign).solid
  have solidWord : ∀ (sign : Option Sign) {monomial : Monomial}, monomial.WellFormed →
      Text.Solid Text.isBlank (String.ofList (Term.signChars sign ++ monomial.chars)).toList :=
    fun sign _ wellFormed => (Side.isWord_written sign wellFormed).solid
  induction following with
  | nil => exact List.forall_mem_nil _
  | apart sign wellFormed following inductionHypothesis =>
      exact List.forall_mem_cons.mpr
        ⟨solidSign sign, List.forall_mem_cons.mpr ⟨solidWord none wellFormed, inductionHypothesis⟩⟩
  | bare sign wellFormed following inductionHypothesis =>
      exact List.forall_mem_cons.mpr
        ⟨solidSign sign, List.forall_mem_cons.mpr ⟨solidWord none wellFormed, inductionHypothesis⟩⟩
  | attached sign wellFormed following inductionHypothesis =>
      exact List.forall_mem_cons.mpr ⟨solidWord (some sign) wellFormed, inductionHypothesis⟩

theorem Content.solid
    {tokens : List Token}
    {terms : List Term}
    (content : Content tokens terms) :
    ∀ token ∈ tokens, Text.Solid Text.isBlank token.text.toList := by
  cases content with
  | word sign wellFormed following =>
      exact List.forall_mem_cons.mpr
        ⟨(Side.isWord_written sign wellFormed).solid, following.solid⟩
  | apart sign wellFormed following => exact (Following.apart sign wellFormed following).solid
  | bare sign wellFormed following => exact (Following.bare sign wellFormed following).solid

/-- A content whose first sign stands alone is a sequence of terms. -/
theorem sequenceOfWords?_sign
    (sign : Sign)
    {monomial : Monomial}
    (wellFormed : monomial.WellFormed)
    {rest : List Token}
    {terms : List Term}
    (following : Following rest terms) :
    Term.sequenceOfWords? (Term.attachSigns ([sign.char] :: monomial.chars :: wordsOf rest)) =
      some (monomial.toTerm sign :: terms) := by
  rw [Term.attachSigns_sign, Term.sequenceOfWords?, Term.ofChars?_cons,
    ofSignedChars?_monomial sign wellFormed, mapM_of_following following]
  rfl

theorem sequenceOfWords?_of_content
    {tokens : List Token}
    {terms : List Term}
    (content : Content tokens terms) :
    Term.sequenceOfWords? (Term.attachSigns (wordsOf tokens)) = some terms := by
  cases content with
  | word sign wellFormed following =>
      rw [wordsOf, List.map_cons, Token.text_literal, String.toList_ofList]
      exact sequenceOfWords?_word sign wellFormed following
  | apart sign wellFormed following =>
      rw [wordsOf, List.map_cons, List.map_cons, Token.text_sign, Token.text_literal, Sign.text,
        String.toList_ofList, String.toList_ofList]
      exact sequenceOfWords?_sign sign wellFormed following
  | bare sign wellFormed following =>
      rw [wordsOf, List.map_cons, List.map_cons, Token.text_literal, Token.text_literal, Sign.text,
        String.toList_ofList, String.toList_ofList]
      exact sequenceOfWords?_sign sign wellFormed following

theorem wordsOf_map_ofText (words : List (List Char)) :
    wordsOf (words.map fun word => Token.ofText (String.ofList word)) = words := by
  rw [wordsOf, List.map_map]
  refine (List.map_congr_left fun word _ => ?_).trans (List.map_id words)
  rw [Function.comp_apply, Token.text_ofText, String.toList_ofList, id]

/-- A text is read as a sequence of terms exactly when its blanks are those of
the term grammar and its tokens are a content. -/
theorem sequence?_eq_some_iff
    {text : String}
    {terms : List Term} :
    Term.sequence? text.toList = some terms ↔
      (∀ c ∈ text.toList, Text.isBlank c = true → Text.isTermBlank c = true) ∧
        Content (Token.scan text) terms := by
  constructor
  · intro read
    let words := Text.words Text.isTermBlank text.toList
    let tokens := words.map fun word => Token.ofText (String.ofList word)
    have wordsOf_tokens : wordsOf tokens = words := wordsOf_map_ofText words
    have termSolid : ∀ token ∈ tokens, Text.Solid Text.isTermBlank token.text.toList := by
      intro token member
      have inWords : token.text.toList ∈ words :=
        wordsOf_tokens ▸ List.mem_map.mpr ⟨token, member, rfl⟩
      exact (Text.solid_of_mem_words inWords).2
    have content : Content tokens terms := by
      apply content_of_sequenceOfWords? termSolid
      rw [wordsOf_tokens]
      exact read
    -- A word of a content has no blanks at all, so every blank divides words.
    have blanks : ∀ c ∈ text.toList, Text.isBlank c = true → Text.isTermBlank c = true := by
      intro c member blank
      by_contra notTermBlank
      obtain ⟨word, inWords, inWord⟩ :=
        Text.exists_mem_words member (Bool.eq_false_of_not_eq_true notTermBlank)
      have inWordsOf : word ∈ wordsOf tokens := wordsOf_tokens.symm ▸ inWords
      obtain ⟨token, inTokens, rfl⟩ := List.mem_map.mp inWordsOf
      rw [content.solid token inTokens c inWord] at blank
      cases blank
    refine ⟨blanks, ?_⟩
    rw [Token.scan, ← Text.words_isTermBlank blanks]
    exact content
  · rintro ⟨blanks, content⟩
    have read := sequenceOfWords?_of_content content
    rw [Token.scan, wordsOf_map_ofText, ← Text.words_isTermBlank blanks] at read
    exact read

end Group

namespace Side

/-! ## A content that is a side -/

/-- How a side is read that is a content with the given terms. -/
inductive ReadsContent (side : List Token) (terms : List Term) : Prop
  /-- No sign is attached behind a term. -/
  | read
      (apart : ∀ position text, ¬AttachedAt side position text)
      (isRead : Side.terms side = .ok terms)
  /-- The first sign that is attached behind a term does not divide terms. -/
  | unseparated
      {position : Nat}
      {text : String}
      (first : FirstAttached side position text)
      (failed : Side.terms side = .error (.misplacedToken text position))

/-- The first token of a side has no term in front of it. -/
theorem not_attachedAt_singleton
    (token : Token)
    (position : Nat)
    (text : String) : ¬AttachedAt [token] position text := by
  rintro ⟨found, _, behindTerm⟩
  obtain rfl : position = 0 := by
    have inside := (List.getElem?_eq_some_iff.mp found).1
    rwa [List.length_singleton, Nat.lt_one_iff] at inside
  cases behindTerm

/-- Which signs are attached in the front of a side does not depend on what
stands behind it. -/
theorem attachedAt_append
    {former latter : List Token}
    {position : Nat}
    (inside : position < former.length)
    {text : String} :
    AttachedAt (former ++ latter) position text ↔ AttachedAt former position text := by
  have found : (former ++ latter)[position]? = former[position]? :=
    List.getElem?_append_left inside
  have front : (former ++ latter).take position = former.take position :=
    List.take_append_of_le_length (Nat.le_of_lt inside)
  constructor
  · rintro ⟨isFound, attached, behindTerm⟩
    exact ⟨found ▸ isFound, attached, front ▸ behindTerm⟩
  · rintro ⟨isFound, attached, behindTerm⟩
    exact ⟨found.symm ▸ isFound, attached, front.symm ▸ behindTerm⟩

/-- Only one sign is the first that is attached behind a term. -/
theorem FirstAttached.unique
    {side : List Token}
    {position otherPosition : Nat}
    {text otherText : String}
    (first : FirstAttached side position text)
    (other : FirstAttached side otherPosition otherText) :
    position = otherPosition ∧ text = otherText := by
  obtain rfl : position = otherPosition := by
    rcases Nat.lt_trichotomy position otherPosition with before | same | behind
    · exact absurd first.1 (other.2 position before text)
    · exact same
    · exact absurd other.1 (first.2 otherPosition behind otherText)
  cases first.1.found.symm.trans other.1.found
  exact ⟨rfl, rfl⟩

theorem not_attachedAt_concat
    {former : List Token}
    (apart : ∀ position text, ¬AttachedAt former position text)
    {last : Token}
    (unsigned : last.hasAttachedSign = false)
    (position : Nat)
    (text : String) : ¬AttachedAt (former ++ [last]) position text := by
  intro attachedAt
  rcases getElem?_concat_eq_some_iff.mp attachedAt.found with inFormer | ⟨rfl, rfl⟩
  · have inside := (List.getElem?_eq_some_iff.mp inFormer).1
    exact apart position text ((attachedAt_append inside).mp attachedAt)
  · rw [attachedAt.attached] at unsigned
    cases unsigned

/-- A literal behind a term without a sign between them is where the reader
fails. -/
theorem terms_of_unseparated
    {former : List Token}
    {front : List Term}
    (read : read? .start former = some (front, .afterTerm))
    {text : String}
    (operand : isParenthesis text = false)
    (rest : List Token) :
    Side.terms (former ++ .literal text :: rest) =
      .error (.misplacedToken text former.length) := by
  have run : reader.run ⟨0, .start⟩ former = .ok (front, ⟨former.length, .afterTerm⟩) := by
    apply eq_ok_of_toOption
    rw [toOption_run_reader, read, Option.map_some, Nat.zero_add]
  have step : reader ⟨former.length, .afterTerm⟩ (.literal text) =
      .error (.misplacedToken text former.length) := by
    rw [reader, readToken_of_afterTerm _ (by simp [operand])]
    rfl
  refine bind_eq_error_iff.mpr (.inl ?_)
  rw [Machine.run_append, run]
  simp only [Machine.run, step]

/-- What stands behind terms that were read is read as far as its signs stand
alone. -/
theorem readsContent_append
    {tokens : List Token}
    {terms : List Term}
    (following : Group.Following tokens terms)
    (areWords : ∀ token ∈ tokens, token.IsWord)
    {former : List Token}
    {front : List Term}
    (read : read? .start former = some (front, .afterTerm))
    (operand : former.any Token.isOperand = true)
    (apart : ∀ position text, ¬AttachedAt former position text) :
    ReadsContent (former ++ tokens) (front ++ terms) := by
  -- The front takes over one term after the other, and stays read as long as none is attached.
  induction following generalizing former front with
  | nil =>
      rw [List.append_nil, List.append_nil]
      exact .read apart (terms_eq_ok_iff.mpr ⟨_, read, rfl⟩)
  | @apart sign monomial wellFormed rest terms following inductionHypothesis =>
      have restWords : ∀ token ∈ rest, token.IsWord := fun token member =>
        areWords token (by simp [member])
      have written : read? .start
          (former ++ [.sign sign, .literal (String.ofList monomial.chars)]) =
            some (front ++ [monomial.toTerm sign], .afterTerm) := by
        rw [read?_append, read, Option.bind_some, read?_sign_monomial .afterTerm sign wellFormed,
          read?_nil]
        rfl
      have stillApart : ∀ position text, ¬AttachedAt
          (former ++ [.sign sign, .literal (String.ofList monomial.chars)]) position text := by
        rw [List.append_cons]
        exact not_attachedAt_concat (not_attachedAt_concat apart rfl)
          (Token.hasAttachedSign_monomial wellFormed)
      have behind := inductionHypothesis restWords written (by simp [operand]) stillApart
      rw [List.append_assoc, List.append_assoc] at behind
      exact behind
  | bare sign wellFormed following inductionHypothesis =>
      exact absurd (areWords _ List.mem_cons_self) (Token.not_isWord_literal_sign sign)
  | @attached sign monomial wellFormed rest terms following inductionHypothesis =>
      let word := String.ofList (sign.char :: monomial.chars)
      have here : AttachedAt (former ++ .literal word :: rest) former.length word := by
        refine ⟨by simp, Token.hasAttachedSign_signed sign monomial.chars, ?_⟩
        rw [List.take_left]
        exact operand
      have first : FirstAttached (former ++ .literal word :: rest) former.length word :=
        ⟨here, fun earlier before other attachedAt =>
          apart earlier other ((attachedAt_append before).mp attachedAt)⟩
      exact .unseparated first (terms_of_unseparated read
        (isParenthesis_eq_false (hasParenthesis_written (some sign) wellFormed)) rest)

theorem isOperand_written
    (sign : Option Sign)
    {monomial : Monomial}
    (wellFormed : monomial.WellFormed) :
    (Token.literal (String.ofList (Term.signChars sign ++ monomial.chars))).isOperand = true := by
  rw [Token.isOperand_literal, isParenthesis_eq_false (hasParenthesis_written sign wellFormed)]
  rfl

/-- A content is read as a side, with its first term in front of the others. -/
theorem readsContent_of_content
    {tokens : List Token}
    {terms : List Term}
    (content : Group.Content tokens terms)
    (areWords : ∀ token ∈ tokens, token.IsWord) : ReadsContent tokens terms := by
  cases content with
  | @word sign monomial wellFormed rest terms following =>
      let first := Token.literal (String.ofList (Term.signChars sign ++ monomial.chars))
      have restWords : ∀ token ∈ rest, token.IsWord := fun token member =>
        areWords token (by simp [member])
      have firstRead :
          read? .start [first] = some ([monomial.toTerm (sign.getD .plus)], .afterTerm) := by
        rw [read?_written Reading.start_ne_afterTerm sign wellFormed, read?_nil]
        rfl
      have operand : [first].any Token.isOperand = true :=
        List.any_eq_true.mpr ⟨first, List.mem_cons_self, isOperand_written sign wellFormed⟩
      exact readsContent_append following restWords firstRead operand
        (not_attachedAt_singleton first)
  | @apart sign monomial wellFormed rest terms following =>
      let first := Token.literal (String.ofList monomial.chars)
      have restWords : ∀ token ∈ rest, token.IsWord := fun token member =>
        areWords token (by simp [member])
      have firstRead :
          read? .start [.sign sign, first] = some ([monomial.toTerm sign], .afterTerm) := by
        rw [read?_sign_monomial .start sign wellFormed, read?_nil]
        rfl
      have operand : [.sign sign, first].any Token.isOperand = true :=
        List.any_eq_true.mpr ⟨first, by simp, isOperand_written none wellFormed⟩
      have apart : ∀ position text, ¬AttachedAt ([.sign sign] ++ [first]) position text :=
        not_attachedAt_concat (not_attachedAt_singleton _)
          (Token.hasAttachedSign_monomial wellFormed)
      exact readsContent_append following restWords firstRead operand apart
  | bare sign wellFormed following =>
      exact absurd (areWords _ List.mem_cons_self) (Token.not_isWord_literal_sign sign)

/-! ## A side that is a content -/

/-- Where an operand may stand, a literal that is read is a monomial behind at
most one sign. -/
theorem exists_written_of_read?
    {reading : Reading}
    (ready : reading ≠ .afterTerm)
    {text : String}
    (isWord : (Token.literal text).IsWord)
    (plain : (Token.literal text).hasParenthesis = false)
    {rest : List Token}
    {terms : List Term}
    {last : Reading}
    (read : read? reading (.literal text :: rest) = some (terms, last)) :
    ∃ sign monomial others, Monomial.WellFormed monomial ∧
      text = String.ofList (Term.signChars sign ++ monomial.chars) ∧
      terms = monomial.toTerm (reading.sign * sign.getD .plus) :: others ∧
      read? .afterTerm rest = some (others, last) := by
  rw [read?_literal ready (isParenthesis_eq_false plain), dropParentheses_eq_self plain] at read
  obtain ⟨term, isTerm, behind⟩ := Option.bind_eq_some_iff.mp read
  obtain ⟨⟨others, reading⟩, restRead, equal⟩ := Option.map_eq_some_iff.mp behind
  obtain ⟨sign, monomial, wellFormed, chars, rfl⟩ :=
    (Term.ofChars?_eq_some_iff isWord.solid.isTermBlank).mp isTerm
  cases equal
  refine ⟨sign, monomial, others, wellFormed, ?_, rfl, restRead⟩
  rw [← chars, Token.text_literal, String.ofList_toList]

/-- Behind a sign alone that no sign follows stands a monomial. -/
theorem exists_monomial_of_read?_sign
    {reading : Reading}
    (unsigned : reading.sign = .plus)
    {sign : Sign}
    {rest : List Token}
    (areWords : ∀ token ∈ Token.sign sign :: rest, token.IsWord)
    (plain : Token.ArePlain (.sign sign :: rest))
    {terms : List Term}
    {last : Reading}
    (ended : ∀ product, last ≠ .signed product)
    (read : read? reading (.sign sign :: rest) = some (terms, last)) :
    ∃ monomial others behind, Monomial.WellFormed monomial ∧
      rest = .literal (String.ofList monomial.chars) :: others ∧
      terms = monomial.toTerm sign :: behind ∧
      read? .afterTerm others = some (behind, last) := by
  rw [read?_sign, unsigned, Sign.plus_mul] at read
  cases rest with
  | nil =>
      cases read
      exact absurd rfl (ended sign)
  | cons next others =>
      have follows := (List.isChain_cons_cons.mp plain.singleSigns).1 rfl
      cases next with
      | sign other => cases follows.1
      | equals => cases read
      | times => cases read
      | literal text =>
          obtain ⟨attached, monomial, behind, wellFormed, rfl, rfl, othersRead⟩ :=
            exists_written_of_read? (Reading.signed_ne_afterTerm sign) (areWords _ (by simp))
              (plain.noParenthesis _ (by simp)) read
          cases attached with
          | none =>
              refine ⟨monomial, others, behind, wellFormed, rfl, ?_, othersRead⟩
              rw [Option.getD_none, Reading.sign, Sign.mul_plus]
          | some mark =>
              have attached := Token.hasAttachedSign_signed mark monomial.chars
              cases attached.symm.trans follows.2

/-- Only a sign alone or a parenthesis can be read behind a term. -/
theorem exists_sign_of_read?
    {token : Token}
    (plain : token.hasParenthesis = false)
    {rest : List Token}
    {result : List Term × Reading}
    (read : read? .afterTerm (token :: rest) = some result) : ∃ sign, token = .sign sign := by
  cases token with
  | sign sign => exact ⟨sign, rfl⟩
  | equals => cases read
  | times => cases read
  | literal text =>
      rw [read?_literal_of_afterTerm (isParenthesis_eq_false plain)] at read
      cases read

/-- Plain tokens that are read behind a term follow the first term of a
content. -/
theorem following_of_read?
    {tokens : List Token}
    (areWords : ∀ token ∈ tokens, token.IsWord)
    (plain : Token.ArePlain tokens)
    {terms : List Term}
    {last : Reading}
    (ended : ∀ product, last ≠ .signed product)
    (read : read? .afterTerm tokens = some (terms, last)) : Group.Following tokens terms := by
  induction tokens using List.twoStepInduction generalizing terms with
  | nil =>
      cases read
      exact .nil
  | singleton token =>
      obtain ⟨sign, rfl⟩ := exists_sign_of_read? (plain.noParenthesis _ List.mem_cons_self) read
      obtain ⟨_, _, _, _, impossible, _⟩ :=
        exists_monomial_of_read?_sign rfl areWords plain ended read
      cases impossible
  | cons_cons token next rest behindNext _ =>
      obtain ⟨sign, rfl⟩ := exists_sign_of_read? (plain.noParenthesis _ List.mem_cons_self) read
      obtain ⟨monomial, others, behind, wellFormed, equal, rfl, othersRead⟩ :=
        exists_monomial_of_read?_sign rfl areWords plain ended read
      cases equal
      exact .apart sign wellFormed
        (behindNext (fun token member => areWords token (by simp [member])) plain.tail.tail
          othersRead)

/-- Plain tokens that are read as a side are a content, unless there are none. -/
theorem content_of_terms
    {tokens : List Token}
    (nonempty : tokens ≠ [])
    (areWords : ∀ token ∈ tokens, token.IsWord)
    (plain : Token.ArePlain tokens)
    {terms : List Term}
    (isRead : Side.terms tokens = .ok terms) : Group.Content tokens terms := by
  obtain ⟨last, read, complete⟩ := terms_eq_ok_iff.mp isRead
  have ended : ∀ product, last ≠ .signed product := by
    rintro product rfl
    cases complete
  cases tokens with
  | nil => exact absurd rfl nonempty
  | cons token rest =>
      have restWords : ∀ token ∈ rest, token.IsWord := fun token member =>
        areWords token (List.mem_cons_of_mem _ member)
      cases token with
      | equals => cases read
      | times => cases read
      | literal text =>
          obtain ⟨sign, monomial, behind, wellFormed, rfl, rfl, restRead⟩ :=
            exists_written_of_read? Reading.start_ne_afterTerm (areWords _ List.mem_cons_self)
              (plain.noParenthesis _ List.mem_cons_self) read
          have unsigned : Reading.start.sign = .plus := rfl
          rw [unsigned, Sign.plus_mul]
          exact .word sign wellFormed (following_of_read? restWords plain.tail ended restRead)
      | sign sign =>
          obtain ⟨monomial, others, behind, wellFormed, rfl, rfl, othersRead⟩ :=
            exists_monomial_of_read?_sign rfl areWords plain ended read
          have othersWords : ∀ token ∈ others, token.IsWord := fun token member =>
            restWords token (List.mem_cons_of_mem _ member)
          exact .apart sign wellFormed
            (following_of_read? othersWords plain.tail.tail ended othersRead)

end Side

namespace Term

/-- The two readers of term sequences agree.  What is read from the characters
of a text is read from its tokens, unless a sign is attached behind a term; then
the first one that is has an error.  What is read from plain tokens is read
from the characters, if there are no other blanks than those of the term
grammar. -/
theorem readSequence_agrees (text : String) :
    (∀ terms, readSequence text = .ok terms →
      ((∀ position word, ¬Side.AttachedAt (Token.scan text) position word) →
        Side.terms (Token.scan text) = .ok terms) ∧
      ∀ position word, Side.FirstAttached (Token.scan text) position word →
        Side.terms (Token.scan text) = .error (.misplacedToken word position)) ∧
    ∀ terms, Side.terms (Token.scan text) = .ok terms →
      Token.scan text ≠ [] →
      Token.ArePlain (Token.scan text) →
      (∀ c ∈ text.toList, Text.isBlank c = true → Text.isTermBlank c = true) →
      readSequence text = .ok terms := by
  have areWords : ∀ token ∈ Token.scan text, token.IsWord := fun token member =>
    Token.isWord_of_mem_scan member
  constructor
  · intro terms isRead
    have content := (Group.sequence?_eq_some_iff.mp (readSequence_eq_ok_iff.mp isRead)).2
    cases Side.readsContent_of_content content areWords with
    | read apart sideRead =>
        exact ⟨fun _ => sideRead, fun position word first => absurd first.1 (apart position word)⟩
    | @unseparated foundPosition foundWord first failed =>
        refine ⟨fun apart => absurd first.1 (apart foundPosition foundWord), ?_⟩
        intro position word other
        obtain ⟨rfl, rfl⟩ := other.unique first
        exact failed
  · intro terms sideRead nonempty plain blanks
    have content := Side.content_of_terms nonempty areWords plain sideRead
    exact readSequence_eq_ok_iff.mpr (Group.sequence?_eq_some_iff.mpr ⟨blanks, content⟩)

theorem readSequence_agrees_attached :
    Side.terms (Token.scan "-x + 1.0") =
      .ok [⟨.minus, none, ⟨"x", ""⟩⟩, ⟨.plus, some 1, ⟨"", ""⟩⟩] ∧
    Side.terms (Token.scan "x + 2y -1") = .error (.misplacedToken "-1" 3) ∧
    readSequence "- x +\t1.0" = .ok [⟨.minus, none, ⟨"x", ""⟩⟩, ⟨.plus, some 1, ⟨"", ""⟩⟩] := by
  refine ⟨?_, ?_, ?_⟩
  · have apart : ∀ position word, ¬Side.AttachedAt (Token.scan "-x + 1.0") position word := by
      have scanned : Token.scan "-x + 1.0" =
          [.literal "-x"] ++ [.sign .plus] ++ [.literal "1.0"] := by decide
      rw [scanned]
      exact Side.not_attachedAt_concat
        (Side.not_attachedAt_concat (Side.not_attachedAt_singleton _) rfl) (by decide)
    exact ((readSequence_agrees "-x + 1.0").1 _ (by decide +kernel)).1 apart
  · let former : List Token := [.literal "x"] ++ [.sign .plus] ++ [.literal "2y"]
    have scanned : Token.scan "x + 2y -1" = former ++ [.literal "-1"] := by decide
    have apart : ∀ position word, ¬Side.AttachedAt former position word :=
      Side.not_attachedAt_concat
        (Side.not_attachedAt_concat (Side.not_attachedAt_singleton _) rfl) (by decide)
    have first : Side.FirstAttached (Token.scan "x + 2y -1") 3 "-1" := by
      rw [scanned]
      exact ⟨⟨by decide, by decide, by decide⟩, fun earlier before other attachedAt =>
        apart earlier other ((Side.attachedAt_append before).mp attachedAt)⟩
    exact ((readSequence_agrees "x + 2y -1").1
      [⟨.plus, none, ⟨"x", ""⟩⟩, ⟨.plus, some 2, ⟨"y", ""⟩⟩, ⟨.minus, some 1, ⟨"", ""⟩⟩]
      (by decide +kernel)).2 3 "-1" first
  · have plain : Token.ArePlain (Token.scan "- x +\t1.0") := ⟨by decide, by decide⟩
    have blanks : ("- x +\t1.0".toList.all fun c =>
        decide (Text.isBlank c = true → Text.isTermBlank c = true)) = true := by decide +kernel
    exact (readSequence_agrees "- x +\t1.0").2 _ (by decide +kernel) (by decide) plain
      fun c member => of_decide_eq_true (List.all_eq_true.mp blanks c member)

end Term
end CanonicalEquation
