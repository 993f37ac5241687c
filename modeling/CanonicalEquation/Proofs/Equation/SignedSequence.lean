import CanonicalEquation.Proofs.Equation.Side
import CanonicalEquation.Proofs.Result
import CanonicalEquation.Proofs.Term.Grammar
import Mathlib.Data.List.DropRight

/-!
# Sides as signed sequences

A side is read exactly when it is a sequence of terms with signs in front of
them, at least one between any two.  What the reader keeps in mind depends on
the tokens behind the last term only, so the terms of a side, the token that
its error names, and the cause of the error can all be said without the reader.
Which literals must be terms, and which of these are terms, can be said by their
characters.
-/

namespace CanonicalEquation

/-- Whether a token must be a term: a literal that is not a parenthesis
alone. -/
def Token.isOperand : Token → Bool
  | literal text => !Side.isParenthesis text
  | _ => false

@[simp] theorem Token.isOperand_literal (text : String) :
    (literal text).isOperand = !Side.isParenthesis text := rfl

/-- The operands are all literals but the two parentheses. -/
theorem Token.isOperand_iff
    {token : Token} :
    token.isOperand = true ↔ ∃ text, token = .literal text ∧ text ≠ "(" ∧ text ≠ ")" := by
  cases token with
  | literal text => simp [Side.isParenthesis_eq_false_iff]
  | _ => simp [isOperand]

/-- What a token contributes to the sign of the next term. -/
def Token.factor : Token → Sign
  | sign mark => mark
  | _ => .plus

namespace Side

/-- The tokens behind the last operand, all of them if there is no operand. -/
def sinceOperand (former : List Token) : List Token :=
  former.rtakeWhile fun token => !token.isOperand

/-- The product of the signs among tokens. -/
def signProduct (tokens : List Token) : Sign :=
  tokens.foldl (fun product token => product * token.factor) .plus

/-- Whether an operand behind the given tokens has an operand in front of it,
and no sign between the two. -/
def LacksOperator (former : List Token) : Prop :=
  former.any Token.isOperand = true ∧ (sinceOperand former).any Token.isSign = false

/-- An operand is a term if it is spelled as the term grammar says, with at most one
opening parenthesis in front and at most one closing one behind. -/
theorem ofChars?_dropParentheses_eq_some_iff
    {literal : List Char}
    {term : Term} :
    Term.ofChars? (dropParentheses literal) = some term ↔
      ∃ (opening closing : List Char) (spelling : Term.Spelling),
        literal = opening ++ (spelling.chars ++ closing) ∧
        (opening = [] ∨ opening = ['(']) ∧ (closing = [] ∨ closing = [')']) ∧
        spelling.WellFormed ∧ spelling.term = term := by
  rw [Term.ofChars?_eq_some_iff_spelling]
  constructor
  · rintro ⟨spelling, wellFormed, chars, isTerm⟩
    rcases dropParentheses_eq_iff.mp chars.symm with
      both | ⟨opened, _⟩ | ⟨closed, _⟩ | ⟨neither, _⟩
    · exact ⟨['('], [')'], spelling, both, .inr rfl, .inr rfl, wellFormed, isTerm⟩
    · exact ⟨['('], [], spelling, by simp [opened], .inr rfl, .inl rfl, wellFormed, isTerm⟩
    · exact ⟨[], [')'], spelling, closed, .inl rfl, .inr rfl, wellFormed, isTerm⟩
    · exact ⟨[], [], spelling, by simp [neither], .inl rfl, .inl rfl, wellFormed, isTerm⟩
  · rintro ⟨opening, closing, spelling, rfl, isOpening, isClosing, wellFormed, isTerm⟩
    refine ⟨spelling, wellFormed, (dropParentheses_eq_iff.mpr ?_).symm, isTerm⟩
    have notOpened : '(' ∉ spelling.chars :=
      Term.Spelling.notMem_chars wellFormed (by decide) (by decide) (by decide)
    have notClosed : spelling.chars.getLast? ≠ some ')' := fun last =>
      Term.Spelling.notMem_chars wellFormed (by decide) (by decide) (by decide)
        (List.mem_of_getLast? last)
    rcases isOpening with rfl | rfl
    · rcases isClosing with rfl | rfl
      · rw [List.append_nil, List.nil_append]
        exact .inr (.inr (.inr ⟨rfl, fun first => notOpened (List.mem_of_head? first), notClosed⟩))
      · refine .inr (.inr (.inl ⟨rfl, fun first => ?_⟩))
        have inLiteral := List.mem_of_head? first
        simp [notOpened] at inLiteral
    · rcases isClosing with rfl | rfl
      · exact .inr (.inl ⟨by simp, notClosed⟩)
      · exact .inl rfl

/-- The sides that are read: operands that are terms without their parentheses,
with a sign between any two of them and no sign behind the last. -/
structure IsSignedSequence (side : List Token) : Prop where
  times_notMem : .times ∉ side
  equals_notMem : .equals ∉ side
  isTerm : ∀ text, .literal text ∈ side → isParenthesis text = false →
    ∃ term, Term.ofChars? (dropParentheses text.toList) = some term
  separated : ∀ position text, side[position]? = some (.literal text) →
    isParenthesis text = false → ¬LacksOperator (side.take position)
  ended : (sinceOperand side).any Token.isSign = false

/-- The terms of a side: one for each operand, in order.  Its sign is the
product of the signs since the previous operand and of its own. -/
structure HasTerms (side : List Token) (terms : List Term) : Prop where
  length_eq : terms.length = side.countP Token.isOperand
  termAt : ∀ position text, side[position]? = some (.literal text) →
    isParenthesis text = false →
    ∃ term, Term.ofChars? (dropParentheses text.toList) = some term ∧
      terms[(side.take position).countP Token.isOperand]? =
        some { term with
          sign := signProduct (sinceOperand (side.take position)) * term.sign }

/-- The tokens that must not stand behind the given ones, and their errors. -/
inductive Offends (former : List Token) : Token → Error → Prop
  /-- A multiplication sign. -/
  | times : Offends former .times (.misplacedToken "*" former.length)
  /-- An equality sign. -/
  | equals : Offends former .equals (.misplacedToken "=" former.length)
  /-- An operand without an operator in front of it, be it a term or not. -/
  | unseparated
      {text : String}
      (operand : isParenthesis text = false)
      (lacks : LacksOperator former) :
      Offends former (.literal text) (.misplacedToken text former.length)
  /-- An operand that is no term. -/
  | notTerm
      {text : String}
      (operand : isParenthesis text = false)
      (separated : ¬LacksOperator former)
      (noTerm : Term.ofChars? (dropParentheses text.toList) = none) :
      Offends former (.literal text) (.notTerm text)

/-- The token at a position must not stand there, with the given error. -/
def OffendsAt (side : List Token) (position : Nat) (error : Error) : Prop :=
  ∃ token, side[position]? = some token ∧ Offends (side.take position) token error

/-- The error of the first token that must not stand where it stands. -/
def FirstOffence (side : List Token) (error : Error) : Prop :=
  ∃ position, OffendsAt side position error ∧
    ∀ earlier < position, ∀ other, ¬OffendsAt side earlier other

/-! ## What the reader keeps in mind -/

/-- What has been read with the given tokens. -/
def readingOf (former : List Token) : Reading :=
  if (sinceOperand former).any Token.isSign then
    .signed (signProduct (sinceOperand former))
  else if former.any Token.isOperand then
    .afterTerm
  else
    .start

theorem sinceOperand_concat
    (former : List Token)
    (token : Token) :
    sinceOperand (former ++ [token]) =
      if token.isOperand then [] else sinceOperand former ++ [token] := by
  rw [sinceOperand, List.rtakeWhile_concat]
  cases token.isOperand <;> rfl

theorem signProduct_concat
    (tokens : List Token)
    (token : Token) : signProduct (tokens ++ [token]) = signProduct tokens * token.factor := by
  rw [signProduct, List.foldl_append]
  rfl

theorem signProduct_of_no_sign
    {tokens : List Token}
    (noSign : tokens.any Token.isSign = false) : signProduct tokens = .plus := by
  induction tokens using List.reverseRecOn with
  | nil => rfl
  | append_singleton former token inductionHypothesis =>
      rw [List.any_append, Bool.or_eq_false_iff] at noSign
      rw [signProduct_concat, inductionHypothesis noSign.1, Sign.plus_mul]
      cases token with
      | sign mark => exact absurd noSign.2 (by simp [Token.isSign])
      | equals => rfl
      | times => rfl
      | literal text => rfl

@[simp] theorem sign_readingOf (former : List Token) :
    (readingOf former).sign = signProduct (sinceOperand former) := by
  unfold readingOf
  by_cases signs : (sinceOperand former).any Token.isSign = true
  · rw [if_pos signs]
    rfl
  · rw [if_neg signs, signProduct_of_no_sign (Bool.eq_false_of_not_eq_true signs)]
    split <;> rfl

theorem readingOf_eq_afterTerm_iff {former : List Token} :
    readingOf former = .afterTerm ↔ LacksOperator former := by
  unfold readingOf LacksOperator
  by_cases signs : (sinceOperand former).any Token.isSign = true
  · simp [signs]
  · by_cases operands : former.any Token.isOperand = true <;> simp [signs, operands]

theorem readingOf_concat_sign
    (former : List Token)
    (sign : Sign) :
    readingOf (former ++ [.sign sign]) = .signed ((readingOf former).sign * sign) := by
  have since : sinceOperand (former ++ [.sign sign]) = sinceOperand former ++ [.sign sign] :=
    sinceOperand_concat former _
  rw [sign_readingOf, readingOf, since, signProduct_concat]
  exact if_pos (by simp [Token.isSign])

theorem readingOf_concat_operand
    (former : List Token)
    {token : Token}
    (operand : token.isOperand = true) : readingOf (former ++ [token]) = .afterTerm := by
  rw [readingOf_eq_afterTerm_iff, LacksOperator, sinceOperand_concat, if_pos operand]
  simp [operand]

/-- Parentheses alone change nothing. -/
theorem readingOf_concat_parenthesis
    (former : List Token)
    {text : String}
    (parenthesis : isParenthesis text = true) :
    readingOf (former ++ [.literal text]) = readingOf former := by
  have notOperand : (Token.literal text).isOperand = false := by simp [parenthesis]
  have since : sinceOperand (former ++ [.literal text]) =
      sinceOperand former ++ [.literal text] := by
    rw [sinceOperand_concat, notOperand]
    rfl
  have product : signProduct (sinceOperand former) * (Token.literal text).factor =
      signProduct (sinceOperand former) := Sign.mul_plus _
  unfold readingOf
  rw [since, signProduct_concat, product]
  simp [notOperand, Token.isSign]

/-! ## One token -/

/-- The terms that a token is, behind the given ones. -/
inductive Writes (former : List Token) : Token → List Term → Prop
  /-- An operand is one term. -/
  | operand
      {text : String}
      {term : Term}
      (operand : isParenthesis text = false)
      (isTerm : Term.ofChars? (dropParentheses text.toList) = some term) :
      Writes former (.literal text)
        [{ term with sign := signProduct (sinceOperand former) * term.sign }]
  /-- Any other token is none. -/
  | other
      {token : Token}
      (notOperand : token.isOperand = false) : Writes former token []

theorem readToken_of_offends
    {former : List Token}
    {token : Token}
    {error : Error}
    (offends : Offends former token error) :
    readToken former.length (readingOf former) token = .error error := by
  cases offends with
  | times => rfl
  | equals => rfl
  | unseparated operand lacks =>
      rw [readingOf_eq_afterTerm_iff.mpr lacks]
      exact readToken_of_afterTerm _ (by simp [operand])
  | @notTerm text operand separated noTerm =>
      have ready : readingOf former ≠ .afterTerm := mt readingOf_eq_afterTerm_iff.mp separated
      rw [readToken_literal _ ready (by simp [operand]), termOf_of_none noTerm]
      rfl

/-- A token that does not offend is read, and the reader keeps in mind what it
should. -/
theorem readToken_of_not_offends
    {former : List Token}
    {token : Token}
    (noOffence : ∀ error, ¬Offends former token error) :
    ∃ written, readToken former.length (readingOf former) token =
        .ok (written, readingOf (former ++ [token])) ∧
      Writes former token written := by
  cases token with
  | times => exact absurd .times (noOffence _)
  | equals => exact absurd .equals (noOffence _)
  | sign sign =>
      rw [readingOf_concat_sign]
      exact ⟨[], rfl, .other rfl⟩
  | literal text =>
      cases operand : isParenthesis text with
      | true =>
          rw [readingOf_concat_parenthesis former operand,
            readToken_parenthesis _ _ operand]
          exact ⟨[], rfl, .other (by simp [operand])⟩
      | false =>
          have separated : ¬LacksOperator former := fun lacks =>
            noOffence _ (.unseparated operand lacks)
          have ready : readingOf former ≠ .afterTerm := mt readingOf_eq_afterTerm_iff.mp separated
          cases isTerm : Term.ofChars? (dropParentheses text.toList) with
          | none => exact absurd (.notTerm operand separated isTerm) (noOffence _)
          | some term =>
              rw [readingOf_concat_operand former (by simp [operand]),
                readToken_literal _ ready (by simp [operand]), termOf_of_some isTerm,
                sign_readingOf]
              exact ⟨_, rfl, .operand operand isTerm⟩

/-! ## All tokens -/

theorem getElem?_concat_eq_some_iff
    {former : List Token}
    {last token : Token}
    {position : Nat} :
    (former ++ [last])[position]? = some token ↔
      former[position]? = some token ∨ position = former.length ∧ last = token := by
  rw [List.getElem?_append]
  by_cases inside : position < former.length
  · simp [inside, Nat.ne_of_lt inside]
  · rw [if_neg inside, List.getElem?_eq_none (Nat.le_of_not_lt inside), List.getElem?_singleton]
    by_cases here : position = former.length
    · simp [here]
    · have behind : position - former.length ≠ 0 := by omega
      simp [here, behind]

theorem take_concat
    {former : List Token}
    {token : Token}
    {position : Nat}
    (found : former[position]? = some token)
    (last : Token) : (former ++ [last]).take position = former.take position :=
  List.take_append_of_le_length (Nat.le_of_lt (List.getElem?_eq_some_iff.mp found).1)

theorem OffendsAt.concat
    {former : List Token}
    {position : Nat}
    {error : Error}
    (offends : OffendsAt former position error)
    (last : Token) : OffendsAt (former ++ [last]) position error := by
  obtain ⟨token, found, offends⟩ := offends
  refine ⟨token, getElem?_concat_eq_some_iff.mpr (.inl found), ?_⟩
  rw [take_concat found]
  exact offends

theorem HasTerms.concat
    {former : List Token}
    {last : Token}
    {terms written : List Term}
    (hasTerms : HasTerms former terms)
    (writes : Writes former last written) : HasTerms (former ++ [last]) (terms ++ written) := by
  obtain ⟨length_eq, termAt⟩ := hasTerms
  constructor
  · rw [List.length_append, List.countP_append, length_eq, List.countP_singleton]
    cases writes with
    | operand operand => simp [operand]
    | other notOperand => simp [notOperand]
  · intro position text found operand
    rcases getElem?_concat_eq_some_iff.mp found with inFormer | ⟨rfl, rfl⟩
    · obtain ⟨term, isTerm, termFound⟩ := termAt position text inFormer operand
      refine ⟨term, isTerm, ?_⟩
      rw [take_concat inFormer]
      rw [List.getElem?_append_left (List.getElem?_eq_some_iff.mp termFound).1]
      exact termFound
    · cases writes with
      | other notOperand => simp [operand] at notOperand
      | @operand _ term _ isTerm =>
          refine ⟨term, isTerm, ?_⟩
          rw [List.take_left, ← length_eq, List.getElem?_concat_length]

/-- Tokens of which none offends are all read. -/
theorem run_of_not_offendsAt
    {side : List Token}
    (noOffence : ∀ position error, ¬OffendsAt side position error) :
    ∃ terms, reader.run ⟨0, .start⟩ side = .ok (terms, ⟨side.length, readingOf side⟩) ∧
      HasTerms side terms := by
  -- From the end, since what the reader keeps in mind depends on the tokens in front.
  induction side using List.reverseRecOn with
  | nil => exact ⟨[], rfl, rfl, nofun⟩
  | append_singleton former last inductionHypothesis =>
      obtain ⟨terms, run, hasTerms⟩ := inductionHypothesis fun position error offends =>
        noOffence position error (offends.concat last)
      have lastRead : ∀ error, ¬Offends former last error := fun error offends => by
        refine noOffence former.length error ⟨last, by simp, ?_⟩
        rw [List.take_left]
        exact offends
      obtain ⟨written, read, writes⟩ := readToken_of_not_offends lastRead
      refine ⟨terms ++ written, ?_, hasTerms.concat writes⟩
      have step : reader ⟨former.length, readingOf former⟩ last =
          .ok (written, ⟨former.length + 1, readingOf (former ++ [last])⟩) := by
        rw [reader, read]
        rfl
      rw [Machine.run_append, run]
      simp only [Machine.run, step, List.append_nil, List.length_append, List.length_singleton]

/-- The first token that offends is where the reader fails. -/
theorem terms_of_firstOffence
    {side : List Token}
    {error : Error}
    (first : FirstOffence side error) : terms side = .error error := by
  obtain ⟨position, ⟨token, found, offends⟩, isFirst⟩ := first
  obtain ⟨_, isToken⟩ := List.getElem?_eq_some_iff.mp found
  have cut : side.take position ++ token :: side.drop (position + 1) = side := by
    rw [← isToken, List.getElem_cons_drop, List.take_append_drop]
  have formerRead : ∀ earlier other, ¬OffendsAt (side.take position) earlier other := by
    rintro earlier other ⟨earlierToken, earlierFound, earlierOffends⟩
    have before : earlier < position := by
      have bound := (List.getElem?_eq_some_iff.mp earlierFound).1
      rw [List.length_take] at bound
      omega
    rw [List.getElem?_take_of_lt before] at earlierFound
    rw [List.take_take, Nat.min_eq_left (Nat.le_of_lt before)] at earlierOffends
    exact isFirst earlier before other ⟨earlierToken, earlierFound, earlierOffends⟩
  obtain ⟨_, run, _⟩ := run_of_not_offendsAt formerRead
  have step : reader ⟨(side.take position).length, readingOf (side.take position)⟩ token =
      .error error := by
    rw [reader, readToken_of_offends offends]
    rfl
  refine bind_eq_error_iff.mpr (.inl ?_)
  rw [← cut, Machine.run_append, run]
  simp only [Machine.run, step]

theorem exists_firstOffence
    {side : List Token}
    {position : Nat}
    {error : Error}
    (offends : OffendsAt side position error) : ∃ first, FirstOffence side first := by
  induction position using Nat.strongRecOn generalizing error with
  | ind position inductionHypothesis =>
      by_cases isFirst : ∀ earlier < position, ∀ other, ¬OffendsAt side earlier other
      · exact ⟨error, position, offends, isFirst⟩
      · push Not at isFirst
        obtain ⟨earlier, before, other, earlierOffends⟩ := isFirst
        exact inductionHypothesis earlier before earlierOffends

theorem dangling_append_singleton
    (former : List Token)
    (token : Token) :
    dangling (former ++ [token]) = .misplacedToken token.text former.length := by
  rw [dangling, List.getLast?_concat, List.length_append]
  rfl

/-- Where a sign dangles, the error names the last token. -/
theorem terms_of_dangling
    {side : List Token}
    (noOffence : ∀ position error, ¬OffendsAt side position error)
    (dangles : (sinceOperand side).any Token.isSign = true) :
    ∃ (former : List Token) (last : Token), side = former ++ [last] ∧
      terms side = .error (.misplacedToken last.text former.length) := by
  rcases List.eq_nil_or_concat' side with rfl | ⟨former, last, rfl⟩
  · cases dangles
  · obtain ⟨_, run, _⟩ := run_of_not_offendsAt noOffence
    refine ⟨former, last, rfl, bind_eq_error_iff.mpr (.inr ⟨_, run, ?_⟩)⟩
    rw [← dangling_append_singleton]
    simp only [readingOf, dangles]
    rfl

theorem exists_terms_of_ended
    {side : List Token}
    (noOffence : ∀ position error, ¬OffendsAt side position error)
    (ended : (sinceOperand side).any Token.isSign = false) :
    ∃ found, terms side = .ok found ∧ HasTerms side found := by
  obtain ⟨found, run, hasTerms⟩ := run_of_not_offendsAt noOffence
  refine ⟨found, bind_eq_ok_iff.mpr ⟨_, run, ?_⟩, hasTerms⟩
  cases operands : side.any Token.isOperand <;> simp only [readingOf, ended, operands] <;> rfl

/-- A side is a signed sequence when none of its tokens offends and no sign
dangles. -/
theorem isSignedSequence_iff {side : List Token} :
    IsSignedSequence side ↔
      (∀ position error, ¬OffendsAt side position error) ∧
        (sinceOperand side).any Token.isSign = false := by
  constructor
  · rintro ⟨times_notMem, equals_notMem, isTerm, separated, ended⟩
    refine ⟨?_, ended⟩
    rintro position error ⟨token, found, offends⟩
    have member := List.mem_of_getElem? found
    cases offends with
    | times => exact times_notMem member
    | equals => exact equals_notMem member
    | unseparated operand lacks => exact separated _ _ found operand lacks
    | notTerm operand _ noTerm =>
        obtain ⟨term, read⟩ := isTerm _ member operand
        rw [noTerm] at read
        cases read
  · rintro ⟨noOffence, ended⟩
    have noOffence : ∀ position token error, side[position]? = some token →
        ¬Offends (side.take position) token error := fun position token error found offends =>
      noOffence position error ⟨token, found, offends⟩
    have separated : ∀ position text, side[position]? = some (.literal text) →
        isParenthesis text = false → ¬LacksOperator (side.take position) :=
      fun position text found operand lacks =>
        noOffence position _ _ found (.unseparated operand lacks)
    refine ⟨fun member => ?_, fun member => ?_, fun text member operand => ?_, separated, ended⟩
    · obtain ⟨position, found⟩ := List.mem_iff_getElem?.mp member
      exact noOffence position _ _ found .times
    · obtain ⟨position, found⟩ := List.mem_iff_getElem?.mp member
      exact noOffence position _ _ found .equals
    · obtain ⟨position, found⟩ := List.mem_iff_getElem?.mp member
      by_contra notTerm
      refine noOffence position _ _ found (.notTerm operand (separated _ _ found operand) ?_)
      exact Option.eq_none_iff_forall_ne_some.mpr fun term read => notTerm ⟨term, read⟩

theorem isSignedSequence_of_terms
    {side : List Token}
    {found : List Term}
    (read : terms side = .ok found) : IsSignedSequence side ∧ HasTerms side found := by
  have noOffence : ∀ position error, ¬OffendsAt side position error := by
    intro position error offends
    obtain ⟨first, isFirst⟩ := exists_firstOffence offends
    exact nomatch read.symm.trans (terms_of_firstOffence isFirst)
  have ended : (sinceOperand side).any Token.isSign = false := by
    by_contra dangles
    obtain ⟨_, _, _, failed⟩ := terms_of_dangling noOffence (Bool.eq_true_of_not_eq_false dangles)
    exact nomatch read.symm.trans failed
  obtain ⟨other, otherRead, hasTerms⟩ := exists_terms_of_ended noOffence ended
  cases read.symm.trans otherRead
  exact ⟨isSignedSequence_iff.mpr ⟨noOffence, ended⟩, hasTerms⟩

theorem terms_eq_error_iff
    {side : List Token}
    {error : Error} :
    terms side = .error error ↔
      FirstOffence side error ∨
      (∀ position other, ¬OffendsAt side position other) ∧
        (sinceOperand side).any Token.isSign = true ∧
        ∃ (former : List Token) (last : Token), side = former ++ [last] ∧
          error = .misplacedToken last.text former.length := by
  constructor
  · intro failed
    by_cases offence : ∃ position other, OffendsAt side position other
    · obtain ⟨position, other, offends⟩ := offence
      obtain ⟨first, isFirst⟩ := exists_firstOffence offends
      cases failed.symm.trans (terms_of_firstOffence isFirst)
      exact .inl isFirst
    · push Not at offence
      cases ended : (sinceOperand side).any Token.isSign with
      | true =>
          obtain ⟨former, last, written, dangles⟩ := terms_of_dangling offence ended
          cases failed.symm.trans dangles
          exact .inr ⟨offence, rfl, former, last, written, rfl⟩
      | false =>
          obtain ⟨_, read, _⟩ := exists_terms_of_ended offence ended
          exact nomatch failed.symm.trans read
  · rintro (first | ⟨noOffence, dangles, former, last, written, rfl⟩)
    · exact terms_of_firstOffence first
    · obtain ⟨otherFormer, otherLast, same, failed⟩ := terms_of_dangling noOffence dangles
      obtain ⟨rfl, equal⟩ := List.append_inj' (written.symm.trans same) rfl
      cases equal
      exact failed

/-- A side is read exactly when it is a signed sequence, and then it has the
terms of its operands.  Otherwise its error is that of the first token that
must not stand where it stands, or, if there is none, a sign dangles and the
last token is named. -/
theorem terms_iff_isSignedSequence (side : List Token) :
    ((∃ found, terms side = .ok found) ↔ IsSignedSequence side) ∧
    (∀ found, terms side = .ok found → HasTerms side found) ∧
    ∀ error, terms side = .error error ↔
      FirstOffence side error ∨
      (∀ position other, ¬OffendsAt side position other) ∧
        (sinceOperand side).any Token.isSign = true ∧
        ∃ (former : List Token) (last : Token), side = former ++ [last] ∧
          error = .misplacedToken last.text former.length := by
  refine ⟨⟨fun ⟨_, read⟩ => (isSignedSequence_of_terms read).1, fun isSequence => ?_⟩,
    fun _ read => (isSignedSequence_of_terms read).2, fun _ => terms_eq_error_iff⟩
  obtain ⟨noOffence, ended⟩ := isSignedSequence_iff.mp isSequence
  obtain ⟨found, read, _⟩ := exists_terms_of_ended noOffence ended
  exact ⟨found, read⟩

example :
    terms (Token.scan "- ( -2x ) + ( - (y)") =
      .ok [⟨.plus, some 2, ⟨"x", ""⟩⟩, ⟨.minus, none, ⟨"y", ""⟩⟩] := by
  decide +kernel

end Side
end CanonicalEquation
