import CanonicalEquation.Proofs.Group.Content
import CanonicalEquation.Proofs.Group.Opening

/-!
# Groups as they are written

A group is a list of tokens, the first with an opening parenthesis in front
and the last with a closing one at its end.  Either parenthesis may stand
alone.  The pass that opens groups finds exactly such lists, and what is read
of them, as a content or as a part of a side, is what stands inside.
-/

namespace CanonicalEquation
namespace Group

/-- A group as it is written. -/
inductive Enclosure where
  /-- Both parentheses are attached to one word. -/
  | single (word : List Char)
  /-- The parentheses are attached to two words, either of them possibly
  empty, with tokens between them. -/
  | several (first : List Char) (middle : List Token) (last : List Char)

/-- A word, or a part of one, without parentheses. -/
structure IsPiece (word : List Char) : Prop where
  plain : ∀ c ∈ word, c ≠ '(' ∧ c ≠ ')'
  solid : Text.Solid Text.isBlank word

theorem isPiece_nil : IsPiece [] :=
  ⟨List.forall_mem_nil _, List.forall_mem_nil _⟩

theorem IsPiece.cons
    {word : List Char}
    (isPiece : IsPiece word)
    {c : Char}
    (plain : c ≠ '(' ∧ c ≠ ')')
    (notBlank : Text.isBlank c = false) : IsPiece (c :: word) :=
  ⟨List.forall_mem_cons.mpr ⟨plain, isPiece.plain⟩,
    List.forall_mem_cons.mpr ⟨notBlank, isPiece.solid⟩⟩

theorem IsPiece.hasParenthesis
    {word : List Char}
    (isPiece : IsPiece word)
    {text : String}
    (chars : text.toList = word) : (Token.literal text).hasParenthesis = false := by
  rw [Token.hasParenthesis_literal_eq_false_iff, chars]
  exact isPiece.plain

/-- A token that may stand inside of a group. -/
structure IsInner (token : Token) : Prop where
  notEquals : token ≠ .equals
  plain : token.hasParenthesis = false
  isWord : token.IsWord

namespace Enclosure

/-- The tokens of a group. -/
def tokens : Enclosure → List Token
  | single word => [.literal (String.ofList ('(' :: (word ++ [')'])))]
  | several first middle last =>
      .literal (String.ofList ('(' :: first)) ::
        (middle ++ [.literal (String.ofList (last ++ [')']))])

/-- The literal that a word stands for, nothing if it is empty. -/
def wordTokens (word : List Char) : List Token :=
  if word = [] then [] else [.literal (String.ofList word)]

/-- The tokens of a group without its parentheses. -/
def inner : Enclosure → List Token
  | single word => wordTokens word
  | several first middle last => wordTokens first ++ middle ++ wordTokens last

/-- The groups whose parentheses are the only ones, and whose words are no
equality sign. -/
def WellFormed : Enclosure → Prop
  | single word => IsPiece word
  | several first middle last => IsPiece first ∧ (∀ token ∈ middle, IsInner token) ∧ IsPiece last

/-- The groups whose parentheses are the only ones, without an equality sign
between them, whatever their words are. -/
def Closed : Enclosure → Prop
  | single word => ∀ c ∈ word, c ≠ '(' ∧ c ≠ ')'
  | several first middle last =>
      (∀ c ∈ first, c ≠ '(' ∧ c ≠ ')') ∧
        (∀ token ∈ middle, token ≠ .equals ∧ token.hasParenthesis = false) ∧
          ∀ c ∈ last, c ≠ '(' ∧ c ≠ ')'

theorem WellFormed.closed
    {enclosure : Enclosure}
    (wellFormed : enclosure.WellFormed) : enclosure.Closed := by
  cases enclosure with
  | single word => exact IsPiece.plain wellFormed
  | several first middle last =>
      obtain ⟨firstPiece, areInner, lastPiece⟩ := wellFormed
      exact ⟨firstPiece.plain,
        fun token member => ⟨(areInner token member).notEquals, (areInner token member).plain⟩,
        lastPiece.plain⟩

/-- The pieces of text between the parentheses. -/
def pieces : Enclosure → List (List Char)
  | single word => [word]
  | several first middle last => first :: (wordsOf middle ++ [last])

theorem wordsOf_wordTokens (word : List Char) :
    wordsOf (wordTokens word) = [word].filter fun word => !word.isEmpty := by
  unfold wordTokens
  by_cases empty : word = []
  · subst empty
    rfl
  · rw [if_neg empty, List.filter_cons_of_pos (by simpa using empty), wordsOf, List.map_singleton,
      Token.text_literal, String.toList_ofList]
    rfl

theorem wordsOf_append (former latter : List Token) :
    wordsOf (former ++ latter) = wordsOf former ++ wordsOf latter :=
  List.map_append

theorem wordsOf_inner
    {enclosure : Enclosure}
    (wellFormed : enclosure.WellFormed) :
    wordsOf enclosure.inner = enclosure.pieces.filter fun word => !word.isEmpty := by
  cases enclosure with
  | single word => exact wordsOf_wordTokens word
  | several first middle last =>
      have nonempty : (wordsOf middle).filter (fun word => !word.isEmpty) = wordsOf middle := by
        apply List.filter_eq_self.mpr
        intro word member
        obtain ⟨token, inMiddle, rfl⟩ := List.mem_map.mp member
        simpa using (wellFormed.2.1 token inMiddle).isWord.nonempty
      change wordsOf (wordTokens first ++ middle ++ wordTokens last) =
        (([first] ++ wordsOf middle) ++ [last]).filter fun word => !word.isEmpty
      rw [wordsOf_append, wordsOf_append, wordsOf_wordTokens, wordsOf_wordTokens,
        List.filter_append, List.filter_append, nonempty]

theorem solid_of_mem_pieces
    {enclosure : Enclosure}
    (wellFormed : enclosure.WellFormed)
    {piece : List Char}
    (member : piece ∈ enclosure.pieces) : Text.Solid Text.isBlank piece := by
  cases enclosure with
  | single word =>
      obtain rfl := List.mem_singleton.mp member
      exact wellFormed.solid
  | several first middle last =>
      rcases List.mem_cons.mp member with rfl | inRest
      · exact wellFormed.1.solid
      · rcases List.mem_append.mp inRest with inMiddle | isLast
        · obtain ⟨token, tokenMember, rfl⟩ := List.mem_map.mp inMiddle
          exact (wellFormed.2.1 token tokenMember).isWord.solid
        · obtain rfl := List.mem_singleton.mp isLast
          exact wellFormed.2.2.solid

theorem solid_inner
    {enclosure : Enclosure}
    (wellFormed : enclosure.WellFormed) :
    ∀ token ∈ enclosure.inner, Text.Solid Text.isTermBlank token.text.toList := by
  intro token member
  have inWords : token.text.toList ∈ wordsOf enclosure.inner := List.mem_map_of_mem member
  rw [wordsOf_inner wellFormed] at inWords
  exact (solid_of_mem_pieces wellFormed (List.mem_filter.mp inWords).1).isTermBlank

theorem equals_notMem_tokens
    {enclosure : Enclosure}
    (wellFormed : enclosure.WellFormed) : .equals ∉ enclosure.tokens := by
  cases enclosure with
  | single word => simp [tokens]
  | several first middle last =>
      have inMiddle : .equals ∉ middle := fun member =>
        (wellFormed.2.1 .equals member).notEquals rfl
      simp [tokens, inMiddle]

theorem exists_literal (enclosure : Enclosure) :
    ∃ text inner rest, text.toList = '(' :: inner ∧ enclosure.tokens = .literal text :: rest := by
  cases enclosure with
  | single word => exact ⟨_, _, _, String.toList_ofList, rfl⟩
  | several first middle last => exact ⟨_, _, _, String.toList_ofList, rfl⟩

/-! ## The text between the parentheses -/

theorem intercalate_append_singleton
    (former : List (List Char))
    (last : List Char)
    (c : Char) :
    [' '].intercalate (former ++ [last ++ [c]]) = [' '].intercalate (former ++ [last]) ++ [c] := by
  induction former with
  | nil =>
      rw [List.nil_append, List.nil_append, List.intercalate_singleton, List.intercalate_singleton]
  | cons first rest inductionHypothesis =>
      have nonempty : ∀ word : List Char, rest ++ [word] ≠ [] := fun word =>
        List.append_ne_nil_of_right_ne_nil _ (List.cons_ne_nil word [])
      rw [List.cons_append, List.cons_append, List.intercalate_cons_of_ne_nil (nonempty _),
        List.intercalate_cons_of_ne_nil (nonempty _), inductionHypothesis, List.append_assoc,
        List.append_assoc, List.append_assoc]

theorem toList_spacedText_tokens (enclosure : Enclosure) :
    (Token.spacedText enclosure.tokens).toList =
      '(' :: ([' '].intercalate enclosure.pieces ++ [')']) := by
  rw [Token.toList_spacedText]
  cases enclosure with
  | single word => simp [tokens, pieces]
  | several first middle last =>
      have words : (several first middle last).tokens.map (fun token => token.text.toList) =
          ('(' :: first) :: (wordsOf middle ++ [last ++ [')']]) := by
        simp [tokens, wordsOf]
      rw [words, List.intercalate_cons_cons_left, ← List.cons_append,
        intercalate_append_singleton]
      rfl

theorem enclosedText_tokens (enclosure : Enclosure) :
    enclosedText enclosure.tokens =
      String.ofList (Text.trim ([' '].intercalate enclosure.pieces)) := by
  rw [enclosedText, toList_spacedText_tokens, List.drop_one, List.tail_cons, List.dropLast_concat]

/-- The words that a group encloses are the words of its inner tokens. -/
theorem words_enclosedText
    {enclosure : Enclosure}
    (wellFormed : enclosure.WellFormed) :
    Text.words Text.isTermBlank (enclosedText enclosure.tokens).toList =
      wordsOf enclosure.inner := by
  have solid : ∀ piece ∈ enclosure.pieces, Text.Solid Text.isBlank piece := fun piece member =>
    solid_of_mem_pieces wellFormed member
  rw [enclosedText_tokens, String.toList_ofList, Text.words_trim,
    Text.words_intercalate (by decide), wordsOf_inner wellFormed]
  · exact fun piece member => (solid piece member).isTermBlank
  · intro c member blank
    rcases Text.mem_intercalate member with rfl | ⟨piece, inPieces, inPiece⟩
    · rfl
    · rw [solid piece inPieces c inPiece] at blank
      cases blank

/-- A group that encloses a sequence of terms encloses some text. -/
theorem enclosedTerms_eq_ok_iff_sequence
    {group : List Token}
    {terms : List Term} :
    enclosedTerms group = .ok terms ↔
      (enclosedText group).isEmpty = false ∧
        Term.sequence? (enclosedText group).toList = some terms := by
  unfold enclosedTerms
  by_cases empty : (enclosedText group).isEmpty = true
  · simp [empty]
  · rw [if_neg empty]
    cases read : Term.sequence? (enclosedText group).toList with
    | none => simp
    | some found => simp [empty]

/-- A group encloses the terms that its inner tokens are as a sequence. -/
theorem enclosedTerms_eq_ok_iff
    {enclosure : Enclosure}
    (wellFormed : enclosure.WellFormed)
    {terms : List Term} :
    enclosedTerms enclosure.tokens = .ok terms ↔
      Term.sequenceOfWords? (Term.attachSigns (wordsOf enclosure.inner)) = some terms := by
  have words := words_enclosedText wellFormed
  rw [enclosedTerms_eq_ok_iff_sequence, Term.sequence?, words, and_iff_right_iff_imp]
  intro read
  by_contra empty
  rw [Bool.not_eq_false, String.isEmpty_iff] at empty
  rw [empty] at words
  rw [words.symm.trans (Text.words_nil _)] at read
  cases read

/-- The inner tokens of a group that encloses terms are a content. -/
theorem content_of_enclosedTerms
    {enclosure : Enclosure}
    (wellFormed : enclosure.WellFormed)
    {terms : List Term}
    (encloses : enclosedTerms enclosure.tokens = .ok terms) :
    Content enclosure.inner terms :=
  content_of_sequenceOfWords? (solid_inner wellFormed)
    ((enclosedTerms_eq_ok_iff wellFormed).mp encloses)

/-! ## A group as a part of a side -/

theorem dropParentheses_opening
    {word : List Char}
    (piece : IsPiece word) : Side.dropParentheses ('(' :: word) = word := by
  have notClosed : word.getLast? ≠ some ')' := fun equal =>
    (piece.plain ')' (List.mem_of_getLast? equal)).2 rfl
  exact Side.dropParentheses_eq_iff.mpr (.inr (.inl ⟨rfl, notClosed⟩))

theorem dropParentheses_closing
    {word : List Char}
    (nonempty : word ≠ [])
    (piece : IsPiece word) : Side.dropParentheses (word ++ [')']) = word := by
  have notOpened : (word ++ [')']).head? ≠ some '(' := by
    intro equal
    rw [List.head?_append_of_ne_nil _ nonempty] at equal
    exact (piece.plain '(' (List.mem_of_head? equal)).1 rfl
  exact Side.dropParentheses_eq_iff.mpr (.inr (.inr (.inl ⟨rfl, notOpened⟩)))

theorem dropParentheses_both (word : List Char) :
    Side.dropParentheses ('(' :: (word ++ [')'])) = word :=
  Side.dropParentheses_eq_iff.mpr (.inl rfl)

theorem dropParentheses_piece
    {word : List Char}
    (piece : IsPiece word) : Side.dropParentheses word = word := by
  have notOpened : word.head? ≠ some '(' := fun equal =>
    (piece.plain '(' (List.mem_of_head? equal)).1 rfl
  have notClosed : word.getLast? ≠ some ')' := fun equal =>
    (piece.plain ')' (List.mem_of_getLast? equal)).2 rfl
  exact Side.dropParentheses_eq_iff.mpr (.inr (.inr (.inr ⟨rfl, notOpened, notClosed⟩)))

theorem isParenthesis_piece
    {word : List Char}
    (piece : IsPiece word) : Side.isParenthesis (String.ofList word) = false := by
  apply Side.isParenthesis_ofList
  · rintro rfl
    exact (piece.plain '(' List.mem_cons_self).1 rfl
  · rintro rfl
    exact (piece.plain ')' List.mem_cons_self).2 rfl

theorem sum?_opening
    {word : List Char}
    (piece : IsPiece word)
    (reading : Side.Reading)
    (rest : List Token) :
    Side.sum? reading (.literal (String.ofList ('(' :: word)) :: rest) =
      Side.sum? reading (wordTokens word ++ rest) := by
  by_cases empty : word = []
  · subst empty
    exact Side.sum?_parenthesis reading (by decide) rest
  · rw [wordTokens, if_neg empty]
    apply Side.sum?_literal_congr
    · exact Side.isParenthesis_ofList (by simp [empty]) (by simp)
    · exact isParenthesis_piece piece
    · rw [String.toList_ofList, String.toList_ofList, dropParentheses_opening piece,
        dropParentheses_piece piece]

theorem sum?_closing
    {word : List Char}
    (piece : IsPiece word)
    (reading : Side.Reading) :
    Side.sum? reading [.literal (String.ofList (word ++ [')']))] =
      Side.sum? reading (wordTokens word) := by
  by_cases empty : word = []
  · subst empty
    exact Side.sum?_parenthesis reading (by decide) []
  · rw [wordTokens, if_neg empty]
    apply Side.sum?_literal_congr
    · apply Side.isParenthesis_ofList
      · intro equal
        have last := congrArg List.getLast? equal
        rw [List.getLast?_concat] at last
        cases last
      · intro equal
        exact empty (List.append_left_eq_self.mp equal)
    · exact isParenthesis_piece piece
    · rw [String.toList_ofList, String.toList_ofList, dropParentheses_closing empty piece,
        dropParentheses_piece piece]

theorem map_turnBy_wordTokens
    (sign : Sign)
    (word : List Char) : (wordTokens word).map (Equation.turnBy sign) = wordTokens word := by
  unfold wordTokens
  split
  · rfl
  · rw [List.map_singleton, Equation.turnBy_literal]

/-- As a part of a side, a group is read as its inner tokens are. -/
theorem sum?_tokens
    {enclosure : Enclosure}
    (wellFormed : enclosure.WellFormed)
    (nonempty : enclosure.inner ≠ [])
    (sign : Sign)
    (reading : Side.Reading) :
    Side.sum? reading (enclosure.tokens.map (Equation.turnBy sign)) =
      Side.sum? reading (enclosure.inner.map (Equation.turnBy sign)) := by
  cases enclosure with
  | single word =>
      have notEmpty : word ≠ [] := by
        rintro rfl
        exact nonempty rfl
      rw [tokens, inner, map_turnBy_wordTokens, List.map_singleton, Equation.turnBy_literal,
        wordTokens, if_neg notEmpty]
      apply Side.sum?_literal_congr
      · exact Side.isParenthesis_ofList (by simp) (by simp)
      · exact isParenthesis_piece wellFormed
      · rw [String.toList_ofList, String.toList_ofList, dropParentheses_both,
          dropParentheses_piece wellFormed]
  | several first middle last =>
      rw [tokens, inner, List.map_cons, List.map_append, List.map_append, List.map_append,
        map_turnBy_wordTokens, map_turnBy_wordTokens, List.map_singleton, Equation.turnBy_literal,
        Equation.turnBy_literal, sum?_opening wellFormed.1, ← List.append_assoc, Side.sum?_append,
        Side.sum?_append _ _ (wordTokens last)]
      congr 1
      funext result
      rw [sum?_closing wellFormed.2.2]

/-! ## A group in the pass -/

theorem contains_opening_eq_false
    {word : List Char}
    (plain : ∀ c ∈ word, c ≠ '(' ∧ c ≠ ')') : word.contains '(' = false := by
  simpa using fun member => (plain '(' member).1 rfl

theorem dropWhile_closing
    {word : List Char}
    (plain : ∀ c ∈ word, c ≠ '(' ∧ c ≠ ')')
    (rest : List Char) : (word ++ rest).dropWhile (· != ')') = rest.dropWhile (· != ')') :=
  List.dropWhile_append_of_pos fun c member => by simpa using (plain c member).2

theorem closes_piece
    (literal : String)
    {word : List Char}
    (plain : ∀ c ∈ word, c ≠ '(' ∧ c ≠ ')') : closes literal word = .ok false := by
  have dropped := dropWhile_closing plain []
  rw [List.append_nil] at dropped
  rw [closes, contains_opening_eq_false plain, dropped]
  rfl

theorem closes_closing
    (literal : String)
    {word : List Char}
    (plain : ∀ c ∈ word, c ≠ '(' ∧ c ≠ ')') : closes literal (word ++ [')']) = .ok true := by
  have noOpening : (word ++ [')']).contains '(' = false := by
    simpa using fun member => (plain '(' member).1 rfl
  rw [closes, noOpening, dropWhile_closing plain]
  rfl

/-- A literal of a group has no parenthesis, or ends with its only one. -/
theorem plain_of_closes
    {literal : String}
    {word : List Char}
    {isLast : Bool}
    (found : closes literal word = .ok isLast) :
    ∃ piece : List Char, (∀ c ∈ piece, c ≠ '(' ∧ c ≠ ')') ∧
      word = piece ++ if isLast then [')'] else [] := by
  have split := List.takeWhile_append_dropWhile (p := (· != ')')) (l := word)
  have noOpening : word.contains '(' = false := by
    by_contra opening
    rw [closes, if_pos (by simpa using opening)] at found
    cases found
  have plain : ∀ c ∈ word.takeWhile (· != ')'), c ≠ '(' ∧ c ≠ ')' := by
    intro c member
    refine ⟨?_, by simpa using List.mem_takeWhile_imp member⟩
    rintro rfl
    have inWord : '(' ∈ word := List.takeWhile_subset _ member
    simp [inWord] at noOpening
  refine ⟨word.takeWhile (· != ')'), plain, ?_⟩
  rw [closes, noOpening] at found
  cases dropped : word.dropWhile (· != ')') with
  | nil =>
      rw [dropped] at found split
      cases found
      exact split.symm
  | cons c rest =>
      have closing := List.head?_dropWhile_not (· != ')') word
      rw [dropped] at found split closing
      obtain rfl : c = ')' := by simpa using closing
      cases rest with
      | nil =>
          cases found
          exact split.symm
      | cons second others => cases found

/-- A literal of a group is a piece, and the group goes on, or it is a piece with
a closing parenthesis behind, and the group ends. -/
theorem exists_piece_of_afterLiteral
    {before : List Token}
    {opening : String}
    {group : List Token}
    {literal : String}
    {inner : List Char}
    (solid : Text.Solid Text.isBlank inner)
    {next : State}
    (step : afterLiteral before opening group literal inner = .ok next) :
    ∃ piece, IsPiece piece ∧
      (inner = piece ∧ next = .inside before opening group ∨
        inner = piece ++ [')'] ∧ next = .behind before group []) := by
  rcases afterLiteral_cases step with ⟨closed, rfl⟩ | ⟨closed, rfl⟩
  · obtain ⟨piece, plain, chars⟩ := plain_of_closes closed
    rw [if_neg (by simp), List.append_nil] at chars
    exact ⟨piece, ⟨plain, fun c member => solid c (chars ▸ member)⟩, .inl ⟨chars, rfl⟩⟩
  · obtain ⟨piece, plain, chars⟩ := plain_of_closes closed
    rw [if_pos rfl] at chars
    exact ⟨piece, ⟨plain, fun c member => solid c (by simp [chars, member])⟩, .inr ⟨chars, rfl⟩⟩

theorem openFrom_inside_append
    (before : List Token)
    (opening : String)
    {middle : List Token}
    (inside : ∀ token ∈ middle, token ≠ .equals ∧ token.hasParenthesis = false)
    (group rest : List Token) :
    openFrom (.inside before opening group) (middle ++ rest) =
      openFrom (.inside before opening (middle.reverse ++ group)) rest := by
  induction middle generalizing group with
  | nil => rfl
  | cons token others inductionHypothesis =>
      obtain ⟨notEquals, tokenPlain⟩ := inside token List.mem_cons_self
      have step : opener (.inside before opening group) token =
          .ok ([], .inside before opening (token :: group)) := by
        cases token with
        | equals => exact absurd rfl notEquals
        | sign sign => rfl
        | times => rfl
        | literal text =>
            have plain := Token.hasParenthesis_literal_eq_false_iff.mp tokenPlain
            refine bind_eq_ok_iff.mpr ⟨_, ?_, rfl⟩
            rw [afterLiteral, closes_piece text plain]
            rfl
      rw [List.cons_append, openFrom_of_silent step,
        inductionHypothesis fun token member => inside token (List.mem_cons_of_mem _ member),
        List.reverse_cons, List.append_assoc, List.singleton_append]

/-- The pass takes a group that is written in front of anything. -/
theorem openFrom_tokens
    {enclosure : Enclosure}
    (closed : enclosure.Closed)
    (before rest : List Token) :
    openFrom (.outside before) (enclosure.tokens ++ rest) =
      openFrom (.behind before enclosure.tokens.reverse []) rest := by
  cases enclosure with
  | single word =>
      apply openFrom_of_silent
      refine bind_eq_ok_iff.mpr ⟨_, ?_, rfl⟩
      rw [afterOutside_opening before (String.toList_ofList ..), afterLiteral,
        closes_closing _ closed]
      rfl
  | several first middle last =>
      have firstStep : opener (.outside before) (.literal (String.ofList ('(' :: first))) =
          .ok ([], .inside before (String.ofList ('(' :: first))
            [.literal (String.ofList ('(' :: first))]) := by
        refine bind_eq_ok_iff.mpr ⟨_, ?_, rfl⟩
        rw [afterOutside_opening before (String.toList_ofList ..), afterLiteral,
          closes_piece _ closed.1]
        rfl
      rw [tokens, List.cons_append, openFrom_of_silent firstStep, List.append_assoc,
        openFrom_inside_append before _ closed.2.1, List.singleton_append]
      rw [List.reverse_cons, List.reverse_append, List.reverse_singleton]
      apply openFrom_of_silent
      refine bind_eq_ok_iff.mpr ⟨_, ?_, rfl⟩
      rw [afterLiteral, String.toList_ofList, closes_closing _ closed.2.2]
      rfl

/-- Where a group can be gone on with, it is written to its end. -/
theorem exists_closing
    {before : List Token}
    {opening : String}
    {group tokens opened : List Token}
    (areWords : ∀ token ∈ tokens, token.IsWord)
    (opens : openFrom (.inside before opening group) tokens = .ok opened) :
    ∃ middle last rest, tokens = middle ++ .literal (String.ofList (last ++ [')'])) :: rest ∧
      (∀ token ∈ middle, IsInner token) ∧ IsPiece last := by
  induction tokens generalizing group with
  | nil => cases opens
  | cons token rest inductionHypothesis =>
      have isWord := areWords token List.mem_cons_self
      have goOn : token ≠ .equals → token.hasParenthesis = false →
          openFrom (.inside before opening (token :: group)) rest = .ok opened →
          ∃ middle last others, token :: rest =
              middle ++ .literal (String.ofList (last ++ [')'])) :: others ∧
            (∀ token ∈ middle, IsInner token) ∧ IsPiece last := by
        intro notEquals plain restOpens
        obtain ⟨middle, last, others, rfl, areInner, piece⟩ := inductionHypothesis
          (fun token member => areWords token (List.mem_cons_of_mem _ member)) restOpens
        exact ⟨token :: middle, last, others, rfl,
          List.forall_mem_cons.mpr ⟨⟨notEquals, plain, isWord⟩, areInner⟩, piece⟩
      obtain ⟨settled, next, remaining, step, restOpens, rfl⟩ := openFrom_cons_eq_ok_iff.mp opens
      cases step with
      | inside notEquals notLiteral =>
          exact goOn notEquals (Token.hasParenthesis_of_notLiteral notLiteral) restOpens
      | literal inside =>
          obtain ⟨piece, isPiece, ⟨chars, rfl⟩ | ⟨chars, rfl⟩⟩ :=
            exists_piece_of_afterLiteral isWord.solid inside
          · exact goOn nofun (isPiece.hasParenthesis chars) restOpens
          · refine ⟨[], piece, rest, ?_, List.forall_mem_nil _,
              isPiece⟩
            rw [← chars, String.ofList_toList]
            rfl

/-- Where the pass can go on behind an opening parenthesis, a group is
written. -/
theorem exists_of_openFrom
    {before : List Token}
    {opening : String}
    {inner : List Char}
    (chars : opening.toList = '(' :: inner)
    {after opened : List Token}
    (areWords : ∀ token ∈ Token.literal opening :: after, token.IsWord)
    (opens : openFrom (.outside before) (.literal opening :: after) = .ok opened) :
    ∃ (enclosure : Enclosure) (rest : List Token), enclosure.WellFormed ∧
      .literal opening :: after = enclosure.tokens ++ rest := by
  obtain ⟨settled, next, remaining, ⟨outside⟩, restOpens, rfl⟩ :=
    openFrom_cons_eq_ok_iff.mp opens
  rw [afterOutside_opening before chars] at outside
  have innerSolid : Text.Solid Text.isBlank inner := fun c member =>
    (areWords (.literal opening) List.mem_cons_self).solid c (by simp [chars, member])
  obtain ⟨piece, isPiece, ⟨rfl, rfl⟩ | ⟨rfl, rfl⟩⟩ :=
    exists_piece_of_afterLiteral innerSolid outside
  · obtain ⟨middle, last, rest, rfl, areInner, lastPiece⟩ := exists_closing
      (fun token member => areWords token (List.mem_cons_of_mem _ member)) restOpens
    refine ⟨.several inner middle last, rest, ⟨isPiece, areInner, lastPiece⟩, ?_⟩
    rw [tokens, ← chars, String.ofList_toList, List.cons_append, List.append_assoc]
    rfl
  · refine ⟨.single piece, after, isPiece, ?_⟩
    rw [tokens, ← chars, String.ofList_toList]
    rfl

end Enclosure
end Group
end CanonicalEquation
