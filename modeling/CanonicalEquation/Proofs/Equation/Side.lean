import CanonicalEquation.Equation.Side
import CanonicalEquation.Proofs.Combination
import CanonicalEquation.Proofs.Term.Reading
import CanonicalEquation.Proofs.Token
import Mathlib.Data.Option.Basic

/-!
# What a side is worth

The positions that the reader of a side keeps count of matter only to its
errors.  Without them, what a list of tokens is worth is a function of the
tokens and of what has been read in front of them, and what two lists in a row
are worth is the sum.
-/

namespace CanonicalEquation

theorem Machine.toOption_run_cons
    (machine : Machine state symbol output error)
    (start : state)
    (first : symbol)
    (rest : List symbol) :
    (machine.run start (first :: rest)).toOption =
      (machine start first).toOption.bind fun step =>
        (machine.run step.2 rest).toOption.map fun result =>
          (step.1 ++ result.1, result.2) := by
  rw [Machine.run]
  cases machine start first with
  | error error => rfl
  | ok step =>
      change _ = (machine.run step.2 rest).toOption.map _
      cases later : machine.run step.2 rest with
      | error error => simp only [later]; rfl
      | ok result => simp only [later]; rfl

namespace Side

theorem Reading.start_ne_afterTerm : start ≠ afterTerm := nofun

theorem Reading.signed_ne_afterTerm (product : Sign) : signed product ≠ afterTerm := nofun

theorem termOf_of_some
    {text : String}
    {term : Term}
    (isTerm : Term.ofChars? (dropParentheses text.toList) = some term) :
    termOf text = .ok term := by
  unfold termOf
  rw [isTerm]

theorem termOf_of_none
    {text : String}
    (noTerm : Term.ofChars? (dropParentheses text.toList) = none) :
    termOf text = .error (.notTerm text) := by
  unfold termOf
  rw [noTerm]

/-- Reads one token, if it can be read there. -/
def accept? (reading : Reading) (token : Token) : Option (List Term × Reading) :=
  (readToken 0 reading token).toOption

theorem readToken_parenthesis
    (position : Nat)
    (reading : Reading)
    {text : String}
    (parenthesis : isParenthesis text = true) :
    readToken position reading (.literal text) = .ok ([], reading) := by
  cases reading <;> exact if_pos parenthesis

theorem readToken_of_afterTerm
    (position : Nat)
    {text : String}
    (notParenthesis : ¬isParenthesis text = true) :
    readToken position .afterTerm (.literal text) = .error (.misplacedToken text position) :=
  if_neg notParenthesis

theorem readToken_literal
    (position : Nat)
    {reading : Reading}
    (ready : reading ≠ .afterTerm)
    {text : String}
    (notParenthesis : ¬isParenthesis text = true) :
    readToken position reading (.literal text) =
      (termOf text).map fun term =>
        ([{ term with sign := reading.sign * term.sign }], .afterTerm) := by
  cases reading with
  | afterTerm => exact absurd rfl ready
  | start => exact if_neg notParenthesis
  | signed product => exact if_neg notParenthesis

theorem toOption_readToken
    (position : Nat)
    (reading : Reading)
    (token : Token) : (readToken position reading token).toOption = accept? reading token := by
  cases token with
  | sign sign => rfl
  | equals => rfl
  | times => rfl
  | literal text =>
      by_cases parenthesis : isParenthesis text = true
      · rw [accept?, readToken_parenthesis position reading parenthesis,
          readToken_parenthesis 0 reading parenthesis]
      · by_cases ready : reading = .afterTerm
        · rw [accept?, ready, readToken_of_afterTerm position parenthesis,
            readToken_of_afterTerm 0 parenthesis]
          rfl
        · rw [accept?, readToken_literal position ready parenthesis,
            readToken_literal 0 ready parenthesis]

/-- Reads tokens behind what has been read: their terms, and what has been read
with them. -/
def read? (reading : Reading) : List Token → Option (List Term × Reading)
  | [] => some ([], reading)
  | token :: rest =>
      (accept? reading token).bind fun step =>
        (read? step.2 rest).map fun result => (step.1 ++ result.1, result.2)

/-- The machine that reads a side, without its positions. -/
theorem toOption_run_reader
    (position : Nat)
    (reading : Reading)
    (tokens : List Token) :
    (reader.run ⟨position, reading⟩ tokens).toOption =
      (read? reading tokens).map fun result =>
        (result.1, ⟨position + tokens.length, result.2⟩) := by
  induction tokens generalizing position reading with
  | nil => rfl
  | cons token rest inductionHypothesis =>
      have first : (reader ⟨position, reading⟩ token).toOption =
          (accept? reading token).map fun step => (step.1, ⟨position + 1, step.2⟩) := by
        rw [← toOption_readToken position, reader]
        cases readToken position reading token <;> rfl
      have count : position + 1 + rest.length = position + (token :: rest).length := by
        rw [List.length_cons]
        omega
      rw [Machine.toOption_run_cons, first, read?]
      cases accept? reading token with
      | none => rfl
      | some step =>
          rw [Option.map_some, Option.bind_some, Option.bind_some, inductionHypothesis, count]
          cases read? step.2 rest <;> rfl

/-- What has been read, if no sign is left over behind it. -/
def complete? (result : α × Reading) : Option α :=
  match result with
  | (_, .signed _) => none
  | (value, _) => some value

theorem toOption_terms (side : List Token) :
    (Side.terms side).toOption = (read? .start side).bind complete? := by
  have view := toOption_run_reader 0 .start side
  unfold Side.terms
  cases run : reader.run ⟨0, .start⟩ side with
  | error error =>
      rw [run] at view
      rw [Option.map_eq_none_iff.mp view.symm]
      rfl
  | ok result =>
      rw [run] at view
      obtain ⟨result, reads, rfl⟩ := Option.map_eq_some_iff.mp view.symm
      rw [reads]
      obtain ⟨terms, reading⟩ := result
      cases reading <;> rfl

theorem terms_eq_ok_iff
    {side : List Token}
    {terms : List Term} :
    Side.terms side = .ok terms ↔
      ∃ last, read? .start side = some (terms, last) ∧ complete? (terms, last) = some terms := by
  have view := toOption_terms side
  constructor
  · intro reads
    rw [reads] at view
    obtain ⟨⟨found, last⟩, readsThem, complete⟩ := Option.bind_eq_some_iff.mp view.symm
    obtain rfl : found = terms := by
      cases last <;> cases complete <;> rfl
    exact ⟨last, readsThem, complete⟩
  · rintro ⟨last, readsThem, complete⟩
    rw [readsThem, Option.bind_some, complete] at view
    cases reads : Side.terms side with
    | error error =>
        rw [reads] at view
        cases view
    | ok found =>
        rw [reads] at view
        cases view
        rfl

/-- Where no sign is left over, the next term has no sign yet. -/
theorem sign_of_complete?
    {value result : α}
    {reading : Reading}
    (complete : complete? (value, reading) = some result) : reading.sign = .plus := by
  cases reading with
  | signed product => cases complete
  | start => rfl
  | afterTerm => rfl

/-! ## One token at a time -/

@[simp] theorem read?_nil (reading : Reading) : read? reading [] = some ([], reading) := rfl

@[simp] theorem read?_sign
    (reading : Reading)
    (sign : Sign)
    (rest : List Token) :
    read? reading (.sign sign :: rest) = read? (.signed (reading.sign * sign)) rest := by
  rw [read?]
  change (some ([], Reading.signed (reading.sign * sign))).bind _ = _
  rw [Option.bind_some]
  cases read? (.signed (reading.sign * sign)) rest <;> rfl

theorem read?_parenthesis
    (reading : Reading)
    {text : String}
    (parenthesis : isParenthesis text = true)
    (rest : List Token) : read? reading (.literal text :: rest) = read? reading rest := by
  rw [read?]
  have step : accept? reading (.literal text) = some ([], reading) := by
    rw [accept?, readToken_parenthesis 0 reading parenthesis]
    rfl
  rw [step, Option.bind_some]
  cases read? reading rest <;> rfl

/-- No literal can be read behind a term without a sign between them. -/
theorem read?_literal_of_afterTerm
    {text : String}
    (notParenthesis : isParenthesis text = false)
    (rest : List Token) : read? .afterTerm (.literal text :: rest) = none := by
  rw [read?, accept?, readToken_of_afterTerm 0 (by simp [notParenthesis])]
  rfl

/-- A literal is read as the term that it is without its parentheses. -/
theorem read?_literal
    {reading : Reading}
    (ready : reading ≠ .afterTerm)
    {text : String}
    (notParenthesis : isParenthesis text = false)
    (rest : List Token) :
    read? reading (.literal text :: rest) =
      (Term.ofChars? (dropParentheses text.toList)).bind fun term =>
        (read? .afterTerm rest).map fun result =>
          ({ term with sign := reading.sign * term.sign } :: result.1, result.2) := by
  have step : accept? reading (.literal text) =
      (Term.ofChars? (dropParentheses text.toList)).map fun term =>
        ([{ term with sign := reading.sign * term.sign }], .afterTerm) := by
    have notTrue : ¬isParenthesis text = true := by simp [notParenthesis]
    rw [accept?, readToken_literal 0 ready notTrue]
    cases isTerm : Term.ofChars? (dropParentheses text.toList) with
    | none =>
        rw [termOf_of_none isTerm]
        rfl
    | some term =>
        rw [termOf_of_some isTerm]
        rfl
  rw [read?, step]
  cases Term.ofChars? (dropParentheses text.toList) <;> rfl

theorem equals_notMem_of_read?
    {reading : Reading}
    {side : List Token}
    {result : List Term × Reading}
    (reads : read? reading side = some result) : .equals ∉ side := by
  induction side generalizing reading result with
  | nil => exact List.not_mem_nil
  | cons token rest inductionHypothesis =>
      obtain ⟨step, accepted, mapped⟩ := Option.bind_eq_some_iff.mp reads
      obtain ⟨restResult, restReads, _⟩ := Option.map_eq_some_iff.mp mapped
      rw [List.mem_cons, not_or]
      refine ⟨?_, inductionHypothesis restReads⟩
      rintro rfl
      cases accepted

/-- Two lists of tokens in a row are read as the first and then the second. -/
theorem read?_append
    (reading : Reading)
    (former latter : List Token) :
    read? reading (former ++ latter) =
      (read? reading former).bind fun middle =>
        (read? middle.2 latter).map fun result => (middle.1 ++ result.1, result.2) := by
  induction former generalizing reading with
  | nil =>
      rw [List.nil_append, read?_nil, Option.bind_some]
      cases read? reading latter <;> rfl
  | cons first rest inductionHypothesis =>
      rw [List.cons_append, read?, read?]
      cases accept? reading first with
      | none => rfl
      | some step =>
          rw [Option.bind_some, Option.bind_some, inductionHypothesis]
          cases read? step.2 rest with
          | none => rfl
          | some middle =>
              rw [Option.bind_some, Option.map_some, Option.bind_some]
              cases read? middle.2 latter with
              | none => rfl
              | some result => simp only [Option.map_some, List.append_assoc]

/-! ## What tokens are worth -/

/-- What the terms are worth that are read, and what has been read with
them. -/
noncomputable def sum? (reading : Reading) (tokens : List Token) :
    Option (Combination × Reading) :=
  (read? reading tokens).map fun result => (Combination.ofTerms result.1, result.2)

/-- What a side is worth. -/
noncomputable def worth? (side : List Token) : Option Combination :=
  (sum? .start side).bind complete?

theorem map_terms_eq_worth? (side : List Token) :
    (Side.terms side).toOption.map Combination.ofTerms = worth? side := by
  rw [toOption_terms, worth?, sum?]
  cases read? .start side with
  | none => rfl
  | some result =>
      obtain ⟨terms, reading⟩ := result
      cases reading <;> rfl

@[simp] theorem sum?_nil (reading : Reading) : sum? reading [] = some (0, reading) := rfl

@[simp] theorem sum?_sign
    (reading : Reading)
    (sign : Sign)
    (rest : List Token) :
    sum? reading (.sign sign :: rest) = sum? (.signed (reading.sign * sign)) rest := by
  rw [sum?, sum?, read?_sign]

theorem sum?_parenthesis
    (reading : Reading)
    {text : String}
    (parenthesis : isParenthesis text = true)
    (rest : List Token) : sum? reading (.literal text :: rest) = sum? reading rest := by
  rw [sum?, sum?, read?_parenthesis reading parenthesis]

theorem sum?_literal_of_afterTerm
    {text : String}
    (notParenthesis : isParenthesis text = false)
    (rest : List Token) : sum? .afterTerm (.literal text :: rest) = none := by
  rw [sum?, read?_literal_of_afterTerm notParenthesis, Option.map_none]

theorem sum?_literal
    {reading : Reading}
    (ready : reading ≠ .afterTerm)
    {text : String}
    (notParenthesis : isParenthesis text = false)
    (rest : List Token) :
    sum? reading (.literal text :: rest) =
      (Term.ofChars? (dropParentheses text.toList)).bind fun term =>
        (sum? .afterTerm rest).map fun result =>
          (reading.sign.scale term.combination + result.1, result.2) := by
  rw [sum?, read?_literal ready notParenthesis, sum?]
  cases Term.ofChars? (dropParentheses text.toList) with
  | none => rfl
  | some term =>
      rw [Option.bind_some, Option.bind_some, Option.map_map, Option.map_map]
      congr 1
      funext result
      rw [Function.comp_apply, Function.comp_apply, Combination.ofTerms_cons,
        Term.combination_signed]

theorem sum?_append
    (reading : Reading)
    (former latter : List Token) :
    sum? reading (former ++ latter) =
      (sum? reading former).bind fun middle =>
        (sum? middle.2 latter).map fun result => (middle.1 + result.1, result.2) := by
  rw [sum?, sum?, read?_append]
  cases read? reading former with
  | none => rfl
  | some middle =>
      rw [Option.bind_some, Option.map_some, Option.bind_some, sum?, Option.map_map,
        Option.map_map]
      congr 1
      funext result
      rw [Function.comp_apply, Function.comp_apply, Combination.ofTerms_append]

/-! ## Literals and their parentheses -/

/-- The literals that are passed over are the two parentheses. -/
theorem isParenthesis_eq_false_iff
    {text : String} : isParenthesis text = false ↔ text ≠ "(" ∧ text ≠ ")" := by
  rw [isParenthesis, Bool.or_eq_false_iff, decide_eq_false_iff_not, decide_eq_false_iff_not]

theorem isParenthesis_eq_false
    {text : String}
    (plain : (Token.literal text).hasParenthesis = false) : isParenthesis text = false := by
  rw [isParenthesis_eq_false_iff]
  constructor
  · rintro rfl
    exact absurd plain (by decide)
  · rintro rfl
    exact absurd plain (by decide)

theorem isParenthesis_ofList
    {text : List Char}
    (notOpening : text ≠ ['('])
    (notClosing : text ≠ [')']) : isParenthesis (String.ofList text) = false := by
  rw [isParenthesis_eq_false_iff]
  exact ⟨fun equal => notOpening (String.ofList_injective equal),
    fun equal => notClosing (String.ofList_injective equal)⟩

/-- A closing parenthesis at the end of a word is dropped once. -/
theorem dropClosing_eq_iff
    {word inner : List Char} :
    (if word.getLast? = some ')' then word.dropLast else word) = inner ↔
      word = inner ++ [')'] ∨ (word = inner ∧ inner.getLast? ≠ some ')') := by
  by_cases closed : word.getLast? = some ')'
  · rw [if_pos closed]
    obtain ⟨former, rfl⟩ := List.getLast?_eq_some_iff.mp closed
    rw [List.dropLast_concat]
    constructor
    · rintro rfl
      exact .inl rfl
    · rintro (equal | ⟨rfl, notClosed⟩)
      · exact List.append_cancel_right equal
      · exact absurd closed notClosed
  · rw [if_neg closed]
    constructor
    · rintro rfl
      exact .inr ⟨rfl, closed⟩
    · rintro (rfl | ⟨rfl, _⟩)
      · exact absurd List.getLast?_concat closed
      · rfl

/-- Of a literal one opening parenthesis is dropped at its front, and one closing
parenthesis at its end. -/
theorem dropParentheses_eq_iff
    {literal inner : List Char} :
    dropParentheses literal = inner ↔
      literal = '(' :: (inner ++ [')']) ∨
      (literal = '(' :: inner ∧ inner.getLast? ≠ some ')') ∨
      (literal = inner ++ [')'] ∧ literal.head? ≠ some '(') ∨
      (literal = inner ∧ literal.head? ≠ some '(' ∧ literal.getLast? ≠ some ')') := by
  unfold dropParentheses
  by_cases opened : literal.head? = some '('
  · rw [if_pos opened, dropClosing_eq_iff]
    obtain ⟨rest, rfl⟩ := List.head?_eq_some_iff.mp opened
    simp
  · rw [if_neg opened, dropClosing_eq_iff]
    have notOpened : ∀ rest, literal ≠ '(' :: rest := by
      rintro rest rfl
      exact opened rfl
    have sameEnd : (literal = inner ∧ inner.getLast? ≠ some ')') ↔
        (literal = inner ∧ literal.getLast? ≠ some ')') :=
      and_congr_right fun equal => by rw [equal]
    simp [notOpened, opened, sameEnd]

theorem dropParentheses_eq_self
    {text : String}
    (plain : (Token.literal text).hasParenthesis = false) :
    dropParentheses text.toList = text.toList := by
  have absent := Token.hasParenthesis_literal_eq_false_iff.mp plain
  have notOpened : text.toList.head? ≠ some '(' := fun equal =>
    (absent '(' (List.mem_of_head? equal)).1 rfl
  have notClosed : text.toList.getLast? ≠ some ')' := fun equal =>
    (absent ')' (List.mem_of_getLast? equal)).2 rfl
  exact dropParentheses_eq_iff.mpr (.inr (.inr (.inr ⟨rfl, notOpened, notClosed⟩)))

/-- Two literals are read alike if they differ in their parentheses only. -/
theorem sum?_literal_congr
    {first second : String}
    (firstLiteral : isParenthesis first = false)
    (secondLiteral : isParenthesis second = false)
    (same : dropParentheses first.toList = dropParentheses second.toList)
    (reading : Reading)
    (rest : List Token) :
    sum? reading (.literal first :: rest) = sum? reading (.literal second :: rest) := by
  by_cases ready : reading = .afterTerm
  · rw [ready, sum?_literal_of_afterTerm firstLiteral, sum?_literal_of_afterTerm secondLiteral]
  · rw [sum?_literal ready firstLiteral, sum?_literal ready secondLiteral, same]

/-- No character of a term is a parenthesis. -/
theorem hasParenthesis_eq_false
    {text : List Char}
    (inTerm : ∀ c ∈ text, Term.occurs c = true) :
    (Token.literal (String.ofList text)).hasParenthesis = false := by
  rw [Token.hasParenthesis_literal_eq_false_iff, String.toList_ofList]
  intro c member
  have range := Term.toNat_of_occurs (inTerm c member)
  constructor
  · rintro rfl
    exact absurd range (by decide)
  · rintro rfl
    exact absurd range (by decide)

theorem hasParenthesis_written
    (sign : Option Sign)
    {monomial : Monomial}
    (wellFormed : monomial.WellFormed) :
    (Token.literal (String.ofList (Term.signChars sign ++ monomial.chars))).hasParenthesis =
      false := by
  have solid := (Term.solid_signChars_append sign wellFormed).isTermBlank
  have isTerm := (Term.ofChars?_eq_some_iff solid).mpr ⟨sign, monomial, wellFormed, rfl, rfl⟩
  exact hasParenthesis_eq_false fun c member => Term.occurs_of_ofChars? solid isTerm member

theorem isWord_written
    (sign : Option Sign)
    {monomial : Monomial}
    (wellFormed : monomial.WellFormed) :
    (Token.literal (String.ofList (Term.signChars sign ++ monomial.chars))).IsWord := by
  obtain ⟨d, others, chars⟩ := List.exists_cons_of_ne_nil (Monomial.chars_ne_nil wellFormed)
  have inWord : d ∈ Term.signChars sign ++ monomial.chars := by simp [chars]
  have occurs := Monomial.occurs_of_mem_chars wellFormed (chars ▸ List.mem_cons_self : d ∈ _)
  apply Token.isWord_literal (List.ne_nil_of_mem inWord)
    (Term.solid_signChars_append sign wellFormed)
  intro c single
  rw [single, List.mem_singleton] at inWord
  subst inWord
  refine ⟨?_, ?_, ?_, ?_⟩ <;> (rintro rfl; exact absurd occurs (by decide))

/-- A numeral is the monomial without letters that it is the numeral of. -/
theorem isWord_numeral
    {numeral : Numeral}
    (wellFormed : numeral.WellFormed) :
    (Token.literal (String.ofList numeral.chars)).IsWord ∧
      (Token.literal (String.ofList numeral.chars)).hasParenthesis = false := by
  have constant := Monomial.wellFormed_constant wellFormed
  rw [← Monomial.chars_constant]
  exact ⟨isWord_written none constant, hasParenthesis_written none constant⟩

/-- A written monomial is read as the term that it is, behind its own sign and
the signs in front of it. -/
theorem read?_written
    {reading : Reading}
    (ready : reading ≠ .afterTerm)
    (sign : Option Sign)
    {monomial : Monomial}
    (wellFormed : monomial.WellFormed)
    (rest : List Token) :
    read? reading (.literal (String.ofList (Term.signChars sign ++ monomial.chars)) :: rest) =
      (read? .afterTerm rest).map fun result =>
        (monomial.toTerm (reading.sign * sign.getD .plus) :: result.1, result.2) := by
  have plain := hasParenthesis_written sign wellFormed
  have solid := (Term.solid_signChars_append sign wellFormed).isTermBlank
  have isTerm := (Term.ofChars?_eq_some_iff solid).mpr ⟨sign, monomial, wellFormed, rfl, rfl⟩
  rw [read?_literal ready (isParenthesis_eq_false plain), dropParentheses_eq_self plain,
    String.toList_ofList, isTerm]
  rfl

/-- A sign alone and a monomial behind it are read as the term that they are
together. -/
theorem read?_sign_monomial
    (reading : Reading)
    (mark : Sign)
    {monomial : Monomial}
    (wellFormed : monomial.WellFormed)
    (rest : List Token) :
    read? reading (.sign mark :: .literal (String.ofList monomial.chars) :: rest) =
      (read? .afterTerm rest).map fun result =>
        (monomial.toTerm (reading.sign * mark) :: result.1, result.2) := by
  have written := read?_written (Reading.signed_ne_afterTerm (reading.sign * mark)) none
    wellFormed rest
  rw [read?_sign]
  refine written.trans ?_
  rw [Option.getD_none, Reading.sign, Sign.mul_plus]

/-- A written monomial is worth what it is, behind its own sign and the signs
in front of it. -/
theorem sum?_written
    {reading : Reading}
    (ready : reading ≠ .afterTerm)
    (sign : Option Sign)
    {monomial : Monomial}
    (wellFormed : monomial.WellFormed)
    (rest : List Token) :
    sum? reading (.literal (String.ofList (Term.signChars sign ++ monomial.chars)) :: rest) =
      (sum? .afterTerm rest).map fun result =>
        (reading.sign.scale (monomial.toTerm (sign.getD .plus)).combination + result.1,
          result.2) := by
  rw [sum?, read?_written ready sign wellFormed, sum?, Option.map_map, Option.map_map]
  congr 1
  funext result
  rw [Function.comp_apply, Function.comp_apply, Combination.ofTerms_cons,
    ← Term.combination_signed]
  rfl

theorem sum?_written_of_afterTerm
    (sign : Option Sign)
    {monomial : Monomial}
    (wellFormed : monomial.WellFormed)
    (rest : List Token) :
    sum? .afterTerm (.literal (String.ofList (Term.signChars sign ++ monomial.chars)) :: rest) =
      none :=
  sum?_literal_of_afterTerm (isParenthesis_eq_false (hasParenthesis_written sign wellFormed)) rest

/-- A sign alone that is a literal is no term. -/
theorem sum?_bareSign
    (reading : Reading)
    (sign : Sign)
    (rest : List Token) : sum? reading (.literal sign.text :: rest) = none := by
  have plain : (Token.literal sign.text).hasParenthesis = false := by
    cases sign <;> decide
  have noTerm : Term.ofChars? sign.text.toList = none := by
    cases sign <;> decide
  by_cases ready : reading = .afterTerm
  · rw [ready]
    exact sum?_literal_of_afterTerm (isParenthesis_eq_false plain) rest
  · rw [sum?_literal ready (isParenthesis_eq_false plain), dropParentheses_eq_self plain, noTerm,
      Option.bind_none]

end Side

theorem Monomial.combination_toTerm
    (sign : Sign)
    (monomial : Monomial) :
    (monomial.toTerm sign).combination = sign.scale (monomial.toTerm .plus).combination := by
  rw [Term.combination, Term.combination, Sign.scale_single]
  rfl

end CanonicalEquation
