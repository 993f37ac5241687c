import CanonicalEquation.Proofs.Group.Alike

/-!
# The tokens in front of a group

Wherever the pass stands, the group that it is in or has last read is written
as a group should be.  Of the tokens in front of the next group it has settled
some and holds back the others, and the last one decides whether a term ends
there.
-/

namespace CanonicalEquation
namespace Group

/-! ## Finite factors -/

theorem isFinite_factorOf
    {token : Token}
    {factor : Rat}
    (read : factorOf token = .ok factor) : Decimal.IsFinite factor := by
  obtain ⟨numeral, _, _, rfl⟩ := exists_numeral_of_factorOf read
  exact Decimal.isFinite_numeralValue numeral

/-- The factors of a lead are finite, and it takes no equality sign. -/
theorem Lead.spec
    {before : List Token}
    {lead : Lead}
    (read : ofTokens before = .ok lead) :
    (∀ factor ∈ lead.factors, Decimal.IsFinite factor) ∧
      lead.before.count .equals = before.count .equals := by
  induction before using Lead.ofTokens.induct generalizing lead with
  | case1 factor rest inductionHypothesis =>
      obtain ⟨value, restLead, valueRead, restRead, rfl⟩ := ofTokens_factor_eq_ok_iff.mp read
      obtain ⟨finite, equals⟩ := inductionHypothesis restRead
      obtain ⟨_, _, rfl, _⟩ := exists_numeral_of_factorOf valueRead
      refine ⟨List.forall_mem_cons.mpr ⟨isFinite_factorOf valueRead, finite⟩, equals.trans ?_⟩
      simp
  | case2 => cases read
  | case3 sign rest =>
      cases read
      exact ⟨List.forall_mem_nil _, by simp⟩
  | case4 tokens notFactor notTimes notSign =>
      rw [ofTokens_of_stops (stops_of_ne notFactor notTimes notSign)] at read
      cases read
      exact ⟨List.forall_mem_nil _, rfl⟩

theorem count_equals_literal
    (text : String)
    (rest : List Token) : (.literal text :: rest).count Token.equals = rest.count .equals :=
  List.count_cons_of_ne (by simp)

/-! ## Where the pass can stand -/

/-- A group with its closing parenthesis, the last token first. -/
def IsGroup (group : List Token) : Prop :=
  ∃ enclosure : Enclosure, enclosure.WellFormed ∧ group.reverse = enclosure.tokens

/-- The states that the pass can be in. -/
def State.WellFormed : State → Prop
  | outside before => ∀ token ∈ before, token.hasParenthesis = false
  | inside _ _ group =>
      ∃ word middle, group.reverse = .literal (String.ofList ('(' :: word)) :: middle ∧
        IsPiece word ∧ ∀ token ∈ middle, IsInner token
  | behind _ group factors => IsGroup group ∧ ∀ factor ∈ factors, Decimal.IsFinite factor
  | multiplying _ group factors => IsGroup group ∧ ∀ factor ∈ factors, Decimal.IsFinite factor

theorem wellFormed_of_afterOutside
    {before : List Token}
    (plain : ∀ token ∈ before, token.hasParenthesis = false)
    {token : Token}
    (isWord : token.IsWord)
    {next : State}
    (step : afterOutside before token = .ok next) : next.WellFormed := by
  rcases afterOutside_cases step with ⟨tokenPlain, rfl⟩ | ⟨text, inner, rfl, chars, opens⟩
  · exact List.forall_mem_cons.mpr ⟨tokenPlain, plain⟩
  · have innerSolid : Text.Solid Text.isBlank inner := fun c member =>
      isWord.solid c (by simp [chars, member])
    obtain ⟨piece, isPiece, ⟨rfl, rfl⟩ | ⟨rfl, rfl⟩⟩ :=
      Enclosure.exists_piece_of_afterLiteral innerSolid opens
    · refine ⟨inner, [], ?_, isPiece, List.forall_mem_nil _⟩
      rw [← chars, String.ofList_toList]
      rfl
    · refine ⟨⟨.single piece, isPiece, ?_⟩, List.forall_mem_nil _⟩
      rw [Enclosure.tokens, ← chars, String.ofList_toList]
      rfl

theorem wellFormed_inside
    {before : List Token}
    {opening : String}
    {group : List Token}
    (wellFormed : (State.inside before opening group).WellFormed)
    {token : Token}
    (isInner : IsInner token) : (State.inside before opening (token :: group)).WellFormed := by
  obtain ⟨word, middle, tokens, piece, areInner⟩ := wellFormed
  refine ⟨word, middle ++ [token], ?_, piece, ?_⟩
  · rw [List.reverse_cons, tokens, List.cons_append]
  · exact List.forall_mem_append.mpr ⟨areInner, List.forall_mem_singleton.mpr isInner⟩

/-- One step of the pass keeps its state well-formed. -/
theorem Step.wellFormed
    {state next : State}
    {token : Token}
    {settled : List Token}
    (step : Step state token settled next)
    (wellFormed : state.WellFormed)
    (isWord : token.IsWord) : next.WellFormed := by
  cases step with
  | outside outside => exact wellFormed_of_afterOutside wellFormed isWord outside
  | inside notEquals notLiteral =>
      exact wellFormed_inside wellFormed
        ⟨notEquals, Token.hasParenthesis_of_notLiteral notLiteral, isWord⟩
  | literal inside =>
      obtain ⟨piece, isPiece, ⟨chars, rfl⟩ | ⟨chars, rfl⟩⟩ :=
        Enclosure.exists_piece_of_afterLiteral isWord.solid inside
      · exact wellFormed_inside wellFormed ⟨nofun, isPiece.hasParenthesis chars, isWord⟩
      · obtain ⟨word, middle, tokens, wordPiece, areInner⟩ := wellFormed
        refine ⟨⟨.several word middle piece, ⟨wordPiece, areInner, isPiece⟩, ?_⟩,
          List.forall_mem_nil _⟩
        rw [List.reverse_cons, tokens, Enclosure.tokens, ← chars, String.ofList_toList,
          List.cons_append]
        rfl
  | times => exact wellFormed
  | finish noFactor finished outside =>
      exact wellFormed_of_afterOutside (List.forall_mem_nil _)
        isWord outside
  | factor read =>
      exact ⟨wellFormed.1, List.forall_mem_cons.mpr ⟨isFinite_factorOf read, wellFormed.2⟩⟩

/-! ## What the pass has read -/

/-- A finished group ends with a part that stands for it. -/
theorem exists_part_of_finish
    {before group : List Token}
    {factors : List Rat}
    (isGroup : IsGroup group)
    (finite : ∀ factor ∈ factors, Decimal.IsFinite factor)
    {settled : List Token}
    (finished : finish before group factors = .ok settled) :
    ∃ former latter, settled = former ++ latter ∧ Equation.IsPart latter ∧
      former.count .equals = before.count .equals := by
  obtain ⟨enclosure, wellFormed, tokens⟩ := isGroup
  obtain ⟨lead, terms, leadRead, encloses, rfl⟩ := finish_eq_ok_iff.mp finished
  rw [tokens] at encloses
  have content := Enclosure.content_of_enclosedTerms wellFormed encloses
  obtain ⟨first, others, rfl⟩ := content.exists_cons
  obtain ⟨leadFinite, equals⟩ := Lead.spec leadRead
  refine ⟨lead.before.reverse, _, rfl, ?_, List.count_reverse.trans equals⟩
  rw [tokens]
  exact isPart_replacement wellFormed content lead.sign
    (List.forall_mem_append.mpr ⟨leadFinite, finite⟩)

/-- The tokens that the next group may use. -/
def State.before : State → List Token
  | outside before => before
  | inside before _ _ => before
  | behind before _ _ => before
  | multiplying before _ _ => before

/-- The state that the pass is in behind a token. -/
def State.EndsWith (last : Option Token) : State → Prop
  | outside before => before.head? = last
  | behind _ _ _ => ∃ text, last = some (.literal text)
  | inside _ _ _ => True
  | multiplying _ _ _ => True

/-- What the pass has settled of tokens, and the state that it is in behind
them. -/
structure Reached
    (tokens settled : List Token)
    (state : State) : Prop where
  wellFormed : state.WellFormed
  equals : (settled ++ state.before).count .equals = tokens.count .equals
  endsWith : state.EndsWith tokens.getLast?

theorem reached_nil : Reached [] [] (.outside []) :=
  ⟨List.forall_mem_nil _, rfl, rfl⟩

theorem spec_of_afterLiteral
    {before : List Token}
    {opening : String}
    {group : List Token}
    {literal : String}
    {inner : List Char}
    {next : State}
    (step : afterLiteral before opening group literal inner = .ok next)
    (text : String) : next.before = before ∧ next.EndsWith (some (.literal text)) := by
  rcases afterLiteral_cases step with ⟨_, rfl⟩ | ⟨_, rfl⟩
  · exact ⟨rfl, trivial⟩
  · exact ⟨rfl, text, rfl⟩

theorem spec_of_afterOutside
    {before : List Token}
    {token : Token}
    {next : State}
    (step : afterOutside before token = .ok next) :
    next.before.count .equals = (token :: before).count .equals ∧
      next.EndsWith (some token) := by
  rcases afterOutside_cases step with ⟨_, rfl⟩ | ⟨text, inner, rfl, _, opens⟩
  · exact ⟨rfl, rfl⟩
  · obtain ⟨same, endsWith⟩ := spec_of_afterLiteral opens text
    refine ⟨?_, endsWith⟩
    rw [same, count_equals_literal]

/-- A step knows the token that it has read. -/
theorem Step.endsWith
    {state next : State}
    {token : Token}
    {settled : List Token}
    (step : Step state token settled next) : next.EndsWith (some token) := by
  cases step with
  | outside outside => exact (spec_of_afterOutside outside).2
  | inside notEquals notLiteral => exact trivial
  | literal inside => exact (spec_of_afterLiteral inside _).2
  | times => exact trivial
  | finish noFactor finished outside => exact (spec_of_afterOutside outside).2
  | factor read =>
      obtain ⟨_, _, rfl, _⟩ := exists_numeral_of_factorOf read
      exact ⟨_, rfl⟩

theorem endsWith_of_run
    {tokens settled : List Token}
    {last : State}
    (run : opener.run (.outside []) tokens = .ok (settled, last)) :
    last.EndsWith tokens.getLast? := by
  rcases List.eq_nil_or_concat tokens with rfl | ⟨init, token, rfl⟩
  · cases run
    rfl
  · rw [List.concat_eq_append, Machine.run_append] at run
    rw [List.concat_eq_append, List.getLast?_concat]
    cases initRun : opener.run (.outside []) init with
    | error error =>
        simp only [initRun] at run
        cases run
    | ok result =>
        simp only [initRun, Machine.run] at run
        cases step : opener result.2 token with
        | error error =>
            simp only [step] at run
            cases run
        | ok taken =>
            simp only [step] at run
            cases run
            exact (step_of_opener step).endsWith

/-- One step of the pass loses no equality sign and adds none. -/
theorem Step.count_equals
    {state next : State}
    {token : Token}
    {settled : List Token}
    (step : Step state token settled next)
    (wellFormed : state.WellFormed) :
    (settled ++ next.before).count .equals = (token :: state.before).count .equals := by
  cases step with
  | outside outside => exact (spec_of_afterOutside outside).1
  | inside notEquals notLiteral => exact (List.count_cons_of_ne notEquals).symm
  | @literal _ _ _ text _ inside =>
      rw [List.nil_append, (spec_of_afterLiteral inside text).1, count_equals_literal]
      rfl
  | times => exact (List.count_cons_of_ne (by decide)).symm
  | @finish _ _ _ _ token _ noFactor finished outside =>
      obtain ⟨former, latter, rfl, isPart, equals⟩ :=
        exists_part_of_finish wellFormed.1 wellFormed.2 finished
      rw [List.count_append, List.count_append, equals, List.count_eq_zero.mpr isPart.noEquals,
        (spec_of_afterOutside outside).1, Nat.add_zero, Nat.add_comm, ← List.count_append]
      rfl
  | factor read =>
      obtain ⟨_, _, rfl, _⟩ := exists_numeral_of_factorOf read
      exact (count_equals_literal _ _).symm

theorem Reached.step
    {tokens settled : List Token}
    {state : State}
    (reached : Reached tokens settled state)
    {token : Token}
    (isWord : token.IsWord)
    {more : List Token}
    {next : State}
    (step : opener state token = .ok (more, next)) :
    Reached (tokens ++ [token]) (settled ++ more) next := by
  have taken := step_of_opener step
  refine ⟨taken.wellFormed reached.wellFormed isWord, ?_, ?_⟩
  · have former := reached.equals
    have latter := taken.count_equals reached.wellFormed
    simp only [List.count_append, List.count_cons, List.count_nil] at former latter ⊢
    omega
  · rw [List.getLast?_concat]
    exact taken.endsWith

/-- What the pass reaches from the front of the tokens. -/
theorem Reached.run
    {tokens settled : List Token}
    {state : State}
    (reached : Reached tokens settled state)
    {rest : List Token}
    (areWords : ∀ token ∈ rest, token.IsWord)
    {more : List Token}
    {last : State}
    (run : opener.run state rest = .ok (more, last)) :
    Reached (tokens ++ rest) (settled ++ more) last := by
  induction rest generalizing tokens settled state more with
  | nil =>
      cases run
      rw [List.append_nil, List.append_nil]
      exact reached
  | cons token others inductionHypothesis =>
      rw [Machine.run] at run
      cases step : opener state token with
      | error error =>
          rw [step] at run
          cases run
      | ok result =>
          obtain ⟨first, middle⟩ := result
          rw [step] at run
          cases othersRun : opener.run middle others with
          | error error =>
              simp only [othersRun] at run
              cases run
          | ok result =>
              obtain ⟨remaining, final⟩ := result
              simp only [othersRun] at run
              cases run
              have next := inductionHypothesis
                (reached.step (areWords token List.mem_cons_self) step)
                (fun token member => areWords token (List.mem_cons_of_mem _ member)) othersRun
              rw [List.append_assoc, List.append_assoc] at next
              exact next

/-! ## In front of a group -/

/-- What has been settled and what is held back in front of a group, if the
equation can be opened so far. -/
inductive Front (before : List Token) : List Token → List Token → Prop
  /-- Nothing stands in front of the group. -/
  | start (empty : before = []) : Front before [] []
  /-- The last token is held back. -/
  | held
      {settled : List Token}
      {token : Token}
      {others : List Token}
      (last : before.getLast? = some token)
      (plain : token.hasParenthesis = false)
      (equals : .equals ∈ settled ++ token :: others ↔ .equals ∈ before) :
      Front before settled (token :: others)
  /-- Another group stands directly in front, with its factors. -/
  | group
      {text : String}
      (former : List Token)
      {latter : List Token}
      (last : before.getLast? = some (.literal text))
      (isPart : Equation.IsPart latter) : Front before (former ++ latter) []

/-- Where the pass stands outside of groups, it holds back what may belong to
the next one. -/
theorem front_of_run
    {before : List Token}
    (areWords : ∀ token ∈ before, token.IsWord)
    {settled held : List Token}
    (run : opener.run (.outside []) before = .ok (settled, .outside held)) :
    Front before settled held := by
  have reached := reached_nil.run areWords run
  rw [List.nil_append, List.nil_append] at reached
  have last : held.head? = before.getLast? := reached.endsWith
  cases held with
  | nil =>
      have empty : before = [] := List.getLast?_eq_none_iff.mp last.symm
      subst empty
      cases run
      exact .start rfl
  | cons token others =>
      refine .held last.symm (reached.wellFormed token List.mem_cons_self) ?_
      rw [← List.count_pos_iff, ← List.count_pos_iff]
      exact reached.equals ▸ Iff.rfl

/-- Where a group is complete, nothing is held back once it is finished. -/
theorem front_of_finish
    {before : List Token}
    (areWords : ∀ token ∈ before, token.IsWord)
    {settled held group : List Token}
    {factors : List Rat}
    (run : opener.run (.outside []) before = .ok (settled, .behind held group factors))
    {more : List Token}
    (finished : finish held group factors = .ok more) : Front before (settled ++ more) [] := by
  have reached := reached_nil.run areWords run
  rw [List.nil_append, List.nil_append] at reached
  obtain ⟨former, latter, rfl, isPart, _⟩ :=
    exists_part_of_finish reached.wellFormed.1 reached.wellFormed.2 finished
  obtain ⟨text, last⟩ := reached.endsWith
  rw [← List.append_assoc]
  exact .group (settled ++ former) last isPart

/-! ## What all tokens are opened to -/

/-- What is settled and what is held back at the end are what the tokens are
opened to. -/
theorem front_of_openAll
    {tokens : List Token}
    (areWords : ∀ token ∈ tokens, token.IsWord)
    {opened : List Token}
    (opens : openAll tokens = .ok opened) :
    ∃ settled held, opened = settled ++ held.reverse ∧ Front tokens settled held := by
  obtain ⟨settled, last, remaining, run, closes, rfl⟩ := openAll_eq_ok_iff.mp opens
  cases last with
  | inside held opening group => cases closes
  | multiplying held group factors => cases closes
  | outside held =>
      obtain rfl : held.reverse = remaining := Except.ok.inj closes
      exact ⟨settled, held, rfl, front_of_run areWords run⟩
  | behind held group factors =>
      exact ⟨settled ++ remaining, [], (List.append_nil _).symm, front_of_finish areWords run closes⟩

theorem count_equals_of_close
    {state : State}
    (wellFormed : state.WellFormed)
    {remaining : List Token}
    (closes : close state = .ok remaining) :
    remaining.count .equals = state.before.count .equals := by
  cases state with
  | inside held opening group => cases closes
  | multiplying held group factors => cases closes
  | outside held =>
      obtain rfl : held.reverse = remaining := Except.ok.inj closes
      exact List.count_reverse
  | behind held group factors =>
      obtain ⟨former, latter, rfl, isPart, equals⟩ :=
        exists_part_of_finish wellFormed.1 wellFormed.2 closes
      rw [List.count_append, equals, List.count_eq_zero.mpr isPart.noEquals]
      rfl

/-- Opening groups loses no equality sign and adds none. -/
theorem count_equals_of_openAll
    {tokens : List Token}
    (areWords : ∀ token ∈ tokens, token.IsWord)
    {opened : List Token}
    (opens : openAll tokens = .ok opened) : opened.count .equals = tokens.count .equals := by
  obtain ⟨settled, last, remaining, run, closes, rfl⟩ := openAll_eq_ok_iff.mp opens
  have reached := reached_nil.run areWords run
  rw [List.count_append, count_equals_of_close reached.wellFormed closes, ← List.count_append]
  exact reached.equals

end Group
end CanonicalEquation
