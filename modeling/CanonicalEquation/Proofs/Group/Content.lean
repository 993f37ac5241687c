import CanonicalEquation.Proofs.Equation.Sides
import CanonicalEquation.Proofs.Term.Reading
import CanonicalEquation.Proofs.Token
import Mathlib.Data.List.Induction

/-!
# What a group encloses

The content of a group is a sequence of terms.  Between its words and its
terms there are few ways: the sign of a term stands alone in front of it, or
is attached to it, and only the first term may have none.  A sign alone may
also come with the opening parenthesis attached, and is a literal then.

A group that stays as it was written is read once more as a part of its side.
There a sign must stand alone to divide two terms.
-/

namespace CanonicalEquation

theorem Term.attachSigns_sign
    (sign : Sign)
    (word : List Char)
    (rest : List (List Char)) :
    attachSigns ([sign.char] :: word :: rest) = (sign.char :: word) :: attachSigns rest := by
  rw [attachSigns, if_pos (by simp)]

theorem Term.attachSigns_singleton (word : List Char) : attachSigns [word] = [word] := by
  match word with
  | [] => rfl
  | [_] => rfl
  | _ :: _ :: _ => rfl

/-- A word that is not a sign alone is not joined to the next one. -/
theorem Term.attachSigns_word
    {word : List Char}
    (notSign : ∀ sign, word ≠ [Sign.char sign])
    (rest : List (List Char)) : attachSigns (word :: rest) = word :: attachSigns rest := by
  match word, rest with
  | [], _ => rfl
  | _ :: _ :: _, _ => rfl
  | [_], [] => rfl
  | [c], next :: rest =>
      rw [attachSigns, if_neg]
      intro found
      obtain ⟨sign, equal⟩ := Option.isSome_iff_exists.mp found
      exact notSign sign (by rw [Sign.ofChar?_eq_some_iff.mp equal])

/-- A word is joined to the one behind it, or stays as it is. -/
theorem Term.attachSigns_cons_cases
    (word : List Char)
    (rest : List (List Char)) :
    (∃ sign next others, word = [Sign.char sign] ∧ rest = next :: others ∧
      attachSigns (word :: rest) = (sign.char :: next) :: attachSigns others) ∨
      attachSigns (word :: rest) = word :: attachSigns rest := by
  by_cases alone : ∃ sign, word = [Sign.char sign]
  · obtain ⟨sign, rfl⟩ := alone
    cases rest with
    | nil => exact .inr (attachSigns_singleton _)
    | cons next others => exact .inl ⟨sign, next, others, rfl, rfl, attachSigns_sign sign next _⟩
  · exact .inr (attachSigns_word (fun sign equal => alone ⟨sign, equal⟩) rest)

/-- The text of a term is not a sign alone. -/
theorem Term.signChars_append_ne_sign
    (sign : Option Sign)
    {monomial : Monomial}
    (wellFormed : monomial.WellFormed)
    (other : Sign) : signChars sign ++ monomial.chars ≠ [other.char] := by
  intro equal
  obtain ⟨c, rest, chars⟩ := List.exists_cons_of_ne_nil (Monomial.chars_ne_nil wellFormed)
  have inChars : c ∈ monomial.chars := by simp [chars]
  have inText : c ∈ signChars sign ++ monomial.chars := List.mem_append_right _ inChars
  rw [equal, List.mem_singleton] at inText
  have occurs := Monomial.occurs_of_mem_chars wellFormed inChars
  rw [inText] at occurs
  cases other <;> exact absurd occurs (by decide)

namespace Token

/-- Only a literal has a character of a monomial. -/
theorem eq_literal_of_occurs
    {token : Token}
    {c : Char}
    (member : c ∈ token.text.toList)
    (inMonomial : Monomial.occurs c = true) : token = .literal token.text := by
  cases token with
  | literal text => rfl
  | equals =>
      obtain rfl := List.mem_singleton.mp member
      exact absurd inMonomial (by decide)
  | times =>
      obtain rfl := List.mem_singleton.mp member
      exact absurd inMonomial (by decide)
  | sign mark =>
      rw [text_sign, Sign.text, String.toList_ofList, List.mem_singleton] at member
      cases mark <;> exact absurd (member ▸ inMonomial) (by decide)

theorem eq_literal_of_monomial
    {token : Token}
    {monomial : Monomial}
    (wellFormed : monomial.WellFormed)
    (former : List Char)
    (text : token.text.toList = former ++ monomial.chars) :
    token = .literal (String.ofList (former ++ monomial.chars)) := by
  obtain ⟨c, rest, chars⟩ := List.exists_cons_of_ne_nil (Monomial.chars_ne_nil wellFormed)
  have inChars : c ∈ monomial.chars := by simp [chars]
  have inText : c ∈ token.text.toList := by simp [text, inChars]
  have literal := eq_literal_of_occurs inText (Monomial.occurs_of_mem_chars wellFormed inChars)
  rw [literal, ← text, String.ofList_toList]

/-- A token with the text of a sign is that sign, or a literal. -/
theorem eq_sign_or_literal
    {token : Token}
    {sign : Sign}
    (text : token.text.toList = [sign.char]) :
    token = .sign sign ∨ token = .literal sign.text := by
  cases token with
  | literal word =>
      right
      rw [Sign.text, ← text, text_literal, String.ofList_toList]
  | equals => cases sign <;> exact absurd text (by decide)
  | times => cases sign <;> exact absurd text (by decide)
  | sign mark =>
      left
      cases mark <;> cases sign <;> first | rfl | exact absurd text (by decide)

end Token

namespace Group

/-- The tokens behind the first term of a content, with their terms. -/
inductive Following : List Token → List Term → Prop
  /-- No term is left. -/
  | nil : Following [] []
  /-- The sign of the next term stands alone. -/
  | apart
      (sign : Sign)
      {monomial : Monomial}
      (wellFormed : monomial.WellFormed)
      {rest : List Token}
      {terms : List Term}
      (following : Following rest terms) :
      Following (.sign sign :: .literal (String.ofList monomial.chars) :: rest)
        (monomial.toTerm sign :: terms)
  /-- The sign of the next term is a literal alone. -/
  | bare
      (sign : Sign)
      {monomial : Monomial}
      (wellFormed : monomial.WellFormed)
      {rest : List Token}
      {terms : List Term}
      (following : Following rest terms) :
      Following (.literal sign.text :: .literal (String.ofList monomial.chars) :: rest)
        (monomial.toTerm sign :: terms)
  /-- The sign of the next term is attached to it. -/
  | attached
      (sign : Sign)
      {monomial : Monomial}
      (wellFormed : monomial.WellFormed)
      {rest : List Token}
      {terms : List Term}
      (following : Following rest terms) :
      Following (.literal (String.ofList (sign.char :: monomial.chars)) :: rest)
        (monomial.toTerm sign :: terms)

/-- The tokens of a content, with its terms. -/
inductive Content : List Token → List Term → Prop
  /-- The first term has no sign, or an attached one. -/
  | word
      (sign : Option Sign)
      {monomial : Monomial}
      (wellFormed : monomial.WellFormed)
      {rest : List Token}
      {terms : List Term}
      (following : Following rest terms) :
      Content (.literal (String.ofList (Term.signChars sign ++ monomial.chars)) :: rest)
        (monomial.toTerm (sign.getD .plus) :: terms)
  /-- The sign of the first term stands alone. -/
  | apart
      (sign : Sign)
      {monomial : Monomial}
      (wellFormed : monomial.WellFormed)
      {rest : List Token}
      {terms : List Term}
      (following : Following rest terms) :
      Content (.sign sign :: .literal (String.ofList monomial.chars) :: rest)
        (monomial.toTerm sign :: terms)
  /-- The sign of the first term is a literal alone. -/
  | bare
      (sign : Sign)
      {monomial : Monomial}
      (wellFormed : monomial.WellFormed)
      {rest : List Token}
      {terms : List Term}
      (following : Following rest terms) :
      Content (.literal sign.text :: .literal (String.ofList monomial.chars) :: rest)
        (monomial.toTerm sign :: terms)

/-! ## Reading a content -/

/-- The words that tokens stand for. -/
def wordsOf (tokens : List Token) : List (List Char) :=
  tokens.map fun token => token.text.toList

/-- A sign and a solid word behind it are a term exactly when the word is a
monomial. -/
theorem ofSignedChars?_cons_eq_some_iff
    {sign : Sign}
    {word : List Char}
    (solid : Text.Solid Text.isTermBlank word)
    {term : Term} :
    Term.ofSignedChars? (sign.char :: word) = some term ↔
      ∃ monomial, Monomial.WellFormed monomial ∧ word = monomial.chars ∧
        term = monomial.toTerm sign := by
  have signSolid : Text.Solid Text.isTermBlank (sign.char :: word) := by
    intro c member
    rcases List.mem_cons.mp member with rfl | inWord
    · cases sign <;> rfl
    · exact solid c inWord
  rw [Term.ofSignedChars?_eq_some_iff signSolid]
  constructor
  · rintro ⟨otherSign, monomial, wellFormed, equal, rfl⟩
    obtain ⟨sameChar, sameChars⟩ := List.cons_eq_cons.mp equal
    obtain rfl : sign = otherSign := by
      cases sign <;> cases otherSign <;> first | rfl | exact absurd sameChar (by decide)
    exact ⟨monomial, wellFormed, sameChars, rfl⟩
  · rintro ⟨monomial, wellFormed, rfl, rfl⟩
    exact ⟨sign, monomial, wellFormed, rfl, rfl⟩

theorem following_of_mapM
    {tokens : List Token}
    (solid : ∀ token ∈ tokens, Text.Solid Text.isTermBlank token.text.toList)
    {terms : List Term}
    (read : (Term.attachSigns (wordsOf tokens)).mapM Term.ofSignedChars? = some terms) :
    Following tokens terms := by
  induction tokens using List.twoStepInduction generalizing terms with
  | nil =>
      cases read
      exact .nil
  | singleton token =>
      rw [wordsOf, List.map_singleton, Term.attachSigns_singleton] at read
      obtain ⟨first, others, firstRead, othersRead, rfl⟩ := Term.mapM_cons_eq_some_iff.mp read
      cases othersRead
      obtain ⟨sign, monomial, wellFormed, text, rfl⟩ :=
        (Term.ofSignedChars?_eq_some_iff (solid token List.mem_cons_self)).mp firstRead
      rw [Token.eq_literal_of_monomial wellFormed [sign.char] text]
      exact .attached sign wellFormed .nil
  | cons_cons token next rest behindNext behindToken =>
      rcases Term.attachSigns_cons_cases token.text.toList (wordsOf (next :: rest)) with
        ⟨sign, nextWord, others, text, split, isJoined⟩ | stays
      · obtain ⟨rfl, rfl⟩ := List.cons.inj split
        rw [wordsOf, List.map_cons] at read
        obtain ⟨first, others, firstRead, othersRead, rfl⟩ :=
          Term.mapM_cons_eq_some_iff.mp (isJoined ▸ read)
        have nextSolid := solid next (by simp)
        obtain ⟨monomial, wellFormed, nextText, rfl⟩ :=
          (ofSignedChars?_cons_eq_some_iff nextSolid).mp firstRead
        have following := behindNext (fun token member => solid token (by simp [member])) othersRead
        rw [Token.eq_literal_of_monomial wellFormed [] nextText]
        rcases Token.eq_sign_or_literal text with rfl | rfl
        · exact .apart sign wellFormed following
        · exact .bare sign wellFormed following
      · rw [wordsOf, List.map_cons] at read
        obtain ⟨first, others, firstRead, othersRead, rfl⟩ :=
          Term.mapM_cons_eq_some_iff.mp (stays ▸ read)
        obtain ⟨sign, monomial, wellFormed, text, rfl⟩ :=
          (Term.ofSignedChars?_eq_some_iff (solid token List.mem_cons_self)).mp firstRead
        rw [Token.eq_literal_of_monomial wellFormed [sign.char] text]
        exact .attached sign wellFormed
          (behindToken next (fun token member => solid token (List.mem_cons_of_mem _ member))
            othersRead)

/-- The tokens of a sequence of terms are a content. -/
theorem content_of_sequenceOfWords?
    {tokens : List Token}
    (solid : ∀ token ∈ tokens, Text.Solid Text.isTermBlank token.text.toList)
    {terms : List Term}
    (read : Term.sequenceOfWords? (Term.attachSigns (wordsOf tokens)) = some terms) :
    Content tokens terms := by
  cases tokens with
  | nil => cases read
  | cons token rest =>
      have tokenSolid := solid token List.mem_cons_self
      have restSolid : ∀ token ∈ rest, Text.Solid Text.isTermBlank token.text.toList :=
        fun token member => solid token (List.mem_cons_of_mem _ member)
      rw [wordsOf, List.map_cons] at read
      rcases Term.attachSigns_cons_cases token.text.toList (wordsOf rest) with
        ⟨sign, nextWord, otherWords, text, split, isJoined⟩ | stays
      · obtain ⟨next, others, rfl, rfl, rfl⟩ := List.map_eq_cons_iff.mp split
        obtain ⟨first, terms, firstRead, termsRead, rfl⟩ :=
          Term.sequenceOfWords?_cons_eq_some_iff.mp (isJoined ▸ read)
        rw [Term.ofChars?_cons] at firstRead
        obtain ⟨monomial, wellFormed, nextText, rfl⟩ :=
          (ofSignedChars?_cons_eq_some_iff (restSolid next List.mem_cons_self)).mp firstRead
        have following := following_of_mapM
          (fun token member => restSolid token (List.mem_cons_of_mem _ member)) termsRead
        rw [Token.eq_literal_of_monomial wellFormed [] nextText]
        rcases Token.eq_sign_or_literal text with rfl | rfl
        · exact .apart sign wellFormed following
        · exact .bare sign wellFormed following
      · obtain ⟨first, terms, firstRead, termsRead, rfl⟩ :=
          Term.sequenceOfWords?_cons_eq_some_iff.mp (stays ▸ read)
        obtain ⟨sign, monomial, wellFormed, text, rfl⟩ :=
          (Term.ofChars?_eq_some_iff tokenSolid).mp firstRead
        rw [Token.eq_literal_of_monomial wellFormed (Term.signChars sign) text]
        exact .word sign wellFormed (following_of_mapM restSolid termsRead)

theorem attachSigns_attached
    (sign : Sign)
    {monomial : Monomial}
    (wellFormed : monomial.WellFormed)
    (rest : List (List Char)) :
    Term.attachSigns ((sign.char :: monomial.chars) :: rest) =
      (sign.char :: monomial.chars) :: Term.attachSigns rest := by
  apply Term.attachSigns_word
  intro otherSign equal
  exact Monomial.chars_ne_nil wellFormed (List.cons_eq_cons.mp equal).2

theorem ofSignedChars?_monomial
    (sign : Sign)
    {monomial : Monomial}
    (wellFormed : monomial.WellFormed) :
    Term.ofSignedChars? (sign.char :: monomial.chars) = some (monomial.toTerm sign) :=
  (ofSignedChars?_cons_eq_some_iff (Monomial.solid_chars wellFormed).isTermBlank).mpr
    ⟨monomial, wellFormed, rfl, rfl⟩

theorem mapM_of_following
    {tokens : List Token}
    {terms : List Term}
    (following : Following tokens terms) :
    (Term.attachSigns (wordsOf tokens)).mapM Term.ofSignedChars? = some terms := by
  induction following with
  | nil => rfl
  | apart sign wellFormed following inductionHypothesis =>
      rw [wordsOf, List.map_cons, List.map_cons, Token.text_sign, Token.text_literal, Sign.text,
        String.toList_ofList, String.toList_ofList, Term.attachSigns_sign]
      exact Term.mapM_cons_eq_some_iff.mpr
        ⟨_, _, ofSignedChars?_monomial sign wellFormed, inductionHypothesis, rfl⟩
  | bare sign wellFormed following inductionHypothesis =>
      rw [wordsOf, List.map_cons, List.map_cons, Token.text_literal, Token.text_literal, Sign.text,
        String.toList_ofList, String.toList_ofList, Term.attachSigns_sign]
      exact Term.mapM_cons_eq_some_iff.mpr
        ⟨_, _, ofSignedChars?_monomial sign wellFormed, inductionHypothesis, rfl⟩
  | attached sign wellFormed following inductionHypothesis =>
      rw [wordsOf, List.map_cons, Token.text_literal, String.toList_ofList,
        attachSigns_attached sign wellFormed]
      exact Term.mapM_cons_eq_some_iff.mpr
        ⟨_, _, ofSignedChars?_monomial sign wellFormed, inductionHypothesis, rfl⟩

/-- A content that begins with a word is a sequence of terms. -/
theorem sequenceOfWords?_word
    (sign : Option Sign)
    {monomial : Monomial}
    (wellFormed : monomial.WellFormed)
    {rest : List Token}
    {terms : List Term}
    (following : Following rest terms) :
    Term.sequenceOfWords? (Term.attachSigns ((Term.signChars sign ++ monomial.chars) ::
        wordsOf rest)) =
      some (monomial.toTerm (sign.getD .plus) :: terms) := by
  have solid := (Term.solid_signChars_append sign wellFormed).isTermBlank
  have read := (Term.ofChars?_eq_some_iff solid).mpr ⟨sign, monomial, wellFormed, rfl, rfl⟩
  rw [Term.attachSigns_word (Term.signChars_append_ne_sign sign wellFormed),
    Term.sequenceOfWords?, read, mapM_of_following following]
  rfl

/-! ## A content as a part of a side -/

/-- Whether every sign of the tokens stands alone. -/
def Apart (tokens : List Token) : Prop :=
  ∀ text, .literal text ∈ tokens → text.toList.head?.bind Sign.ofChar? = none

theorem apart_nil : Apart [] :=
  fun _ member => absurd member List.not_mem_nil

theorem Apart.of_cons
    {token : Token}
    {rest : List Token}
    (apart : Apart (token :: rest)) : Apart rest :=
  fun text member => apart text (List.mem_cons_of_mem _ member)

theorem apart_cons_sign_iff
    (sign : Sign)
    {rest : List Token} : Apart (.sign sign :: rest) ↔ Apart rest := by
  constructor
  · exact Apart.of_cons
  · intro apart text member
    rcases List.mem_cons.mp member with impossible | inRest
    · cases impossible
    · exact apart text inRest

theorem apart_cons_monomial_iff
    {monomial : Monomial}
    (wellFormed : monomial.WellFormed)
    {rest : List Token} :
    Apart (.literal (String.ofList monomial.chars) :: rest) ↔ Apart rest := by
  constructor
  · exact Apart.of_cons
  · intro apart text member
    rcases List.mem_cons.mp member with equal | inRest
    · cases equal
      rw [String.toList_ofList]
      exact Monomial.unsigned_chars wellFormed
    · exact apart text inRest

theorem apart_cons_cons_iff
    (sign : Sign)
    {monomial : Monomial}
    (wellFormed : monomial.WellFormed)
    {rest : List Token} :
    Apart (.sign sign :: .literal (String.ofList monomial.chars) :: rest) ↔ Apart rest :=
  (apart_cons_sign_iff sign).trans (apart_cons_monomial_iff wellFormed)

theorem not_apart_cons
    {sign : Sign}
    {others : List Char}
    {rest : List Token} : ¬Apart (.literal (String.ofList (sign.char :: others)) :: rest) := by
  intro apart
  have noSign := apart _ List.mem_cons_self
  rw [String.toList_ofList, List.head?_cons, Option.bind_some, Sign.ofChar?_char] at noSign
  cases noSign

/-- A sign alone and a monomial behind it are worth the term that they are
together. -/
theorem sum?_sign_monomial
    (reading : Side.Reading)
    (mark : Sign)
    {monomial : Monomial}
    (wellFormed : monomial.WellFormed)
    (rest : List Token) :
    Side.sum? reading (.sign mark :: .literal (String.ofList monomial.chars) :: rest) =
      (Side.sum? .afterTerm rest).map fun result =>
        (reading.sign.scale (monomial.toTerm mark).combination + result.1, result.2) := by
  have written := Side.sum?_written (Side.Reading.signed_ne_afterTerm (reading.sign * mark)) none
    wellFormed rest
  rw [Side.sum?_sign]
  refine written.trans ?_
  rw [Monomial.combination_toTerm mark, ← Sign.scale_mul]
  rfl

/-- Behind a term, the rest of a content is read as its terms if its signs
stand alone. -/
theorem sum?_following
    (sign : Sign)
    {tokens : List Token}
    {terms : List Term}
    (following : Following tokens terms)
    (apart : Apart tokens) :
    Side.sum? .afterTerm (tokens.map (Equation.turnBy sign)) =
      some (sign.scale (Combination.ofTerms terms), .afterTerm) := by
  induction following with
  | nil =>
      rw [List.map_nil, Side.sum?_nil, Combination.ofTerms_nil, Sign.scale_zero]
  | apart mark wellFormed following inductionHypothesis =>
      rw [List.map_cons, List.map_cons, Equation.turnBy_sign, Equation.turnBy_literal,
        sum?_sign_monomial _ _ wellFormed,
        inductionHypothesis ((apart_cons_cons_iff mark wellFormed).mp apart), Option.map_some,
        Combination.ofTerms_cons, Sign.scale_add, Monomial.combination_toTerm (sign * mark),
        Monomial.combination_toTerm mark, Sign.scale_mul]
      rfl
  | bare mark wellFormed following inductionHypothesis => exact absurd apart not_apart_cons
  | attached mark wellFormed following inductionHypothesis => exact absurd apart not_apart_cons

/-- Behind a term, the rest of a content cannot be read if not all its signs
stand alone. -/
theorem sum?_following_of_not_apart
    (sign : Sign)
    {tokens : List Token}
    {terms : List Term}
    (following : Following tokens terms)
    (notApart : ¬Apart tokens) :
    Side.sum? .afterTerm (tokens.map (Equation.turnBy sign)) = none := by
  induction following with
  | nil => exact absurd apart_nil notApart
  | apart mark wellFormed following inductionHypothesis =>
      rw [List.map_cons, List.map_cons, Equation.turnBy_sign, Equation.turnBy_literal,
        sum?_sign_monomial _ _ wellFormed,
        inductionHypothesis ((apart_cons_cons_iff mark wellFormed).not.mp notApart),
        Option.map_none]
  | bare mark wellFormed following inductionHypothesis =>
      rw [List.map_cons, Equation.turnBy_literal, Side.sum?_bareSign]
  | attached mark wellFormed following inductionHypothesis =>
      rw [List.map_cons, Equation.turnBy_literal]
      exact Side.sum?_written_of_afterTerm (some mark) wellFormed _

/-- The terms of a content can be written. -/
theorem Following.wellFormed
    {tokens : List Token}
    {terms : List Term}
    (following : Following tokens terms) : ∀ term ∈ terms, term.WellFormed := by
  induction following with
  | nil => exact List.forall_mem_nil _
  | apart mark wellFormed following inductionHypothesis =>
      exact List.forall_mem_cons.mpr
        ⟨Monomial.wellFormed_toTerm mark wellFormed, inductionHypothesis⟩
  | bare mark wellFormed following inductionHypothesis =>
      exact List.forall_mem_cons.mpr
        ⟨Monomial.wellFormed_toTerm mark wellFormed, inductionHypothesis⟩
  | attached mark wellFormed following inductionHypothesis =>
      exact List.forall_mem_cons.mpr
        ⟨Monomial.wellFormed_toTerm mark wellFormed, inductionHypothesis⟩

theorem Content.wellFormed
    {tokens : List Token}
    {terms : List Term}
    (content : Content tokens terms) : ∀ term ∈ terms, term.WellFormed := by
  cases content with
  | word sign wellFormed following =>
      exact List.forall_mem_cons.mpr ⟨Monomial.wellFormed_toTerm _ wellFormed, following.wellFormed⟩
  | apart sign wellFormed following =>
      exact List.forall_mem_cons.mpr ⟨Monomial.wellFormed_toTerm _ wellFormed, following.wellFormed⟩
  | bare sign wellFormed following =>
      exact List.forall_mem_cons.mpr ⟨Monomial.wellFormed_toTerm _ wellFormed, following.wellFormed⟩

end Group
end CanonicalEquation
