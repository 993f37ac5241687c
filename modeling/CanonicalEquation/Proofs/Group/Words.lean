import CanonicalEquation.Proofs.Group.Front

/-!
# Opened groups are words

Every token that the pass writes stands for a word: it is a token of the text,
or a sign or a number of a multiplied term.  So an opened equation is the
tokens of a text again.
-/

namespace CanonicalEquation
namespace Group

/-! ## The words of multiplied terms -/

theorem isWord_unsignedText
    {term : Term}
    (wellFormed : term.WellFormed) : (Token.literal term.unsignedText).IsWord := by
  obtain ⟨monomial, monomialWellFormed, text, _⟩ := exists_monomial wellFormed
  rw [text]
  exact Side.isWord_written none monomialWellFormed

theorem isWord_termTokens
    (signed : Bool)
    {terms : List Term}
    (wellFormed : ∀ term ∈ terms, term.WellFormed) :
    ∀ token ∈ termTokens signed terms, token.IsWord := by
  intro token member
  rcases eq_of_mem_termTokens member with ⟨sign, rfl⟩ | ⟨term, inTerms, rfl⟩
  · exact Token.isWord_sign sign
  · exact isWord_unsignedText (wellFormed term inTerms)

theorem isWord_replacement
    (sign : Option Sign)
    {factors : List Rat}
    (finite : ∀ factor ∈ factors, Decimal.IsFinite factor)
    {group : List Token}
    (areWords : ∀ token ∈ group, token.IsWord)
    {terms : List Term}
    (wellFormed : ∀ term ∈ terms, term.WellFormed) :
    ∀ token ∈ replacement sign factors group terms, token.IsWord := by
  unfold replacement
  split
  · refine List.forall_mem_append.mpr ⟨fun token member => ?_, areWords⟩
    obtain ⟨mark, _, rfl⟩ := List.mem_map.mp (Option.toList_map .. ▸ member)
    exact Token.isWord_sign mark
  · apply isWord_termTokens
    intro term member
    obtain ⟨original, inTerms, rfl⟩ := List.mem_map.mp member
    exact wellFormed_multiply sign (isFinite_product finite) (wellFormed original inTerms)

/-! ## The words that the pass writes -/

/-- The tokens that the pass holds back. -/
def State.held : State → List Token
  | outside before => before
  | inside before _ group => group ++ before
  | behind before group _ => group ++ before
  | multiplying before group _ => group ++ before

theorem held_of_afterLiteral
    {before : List Token}
    {opening : String}
    {group : List Token}
    {literal : String}
    {inner : List Char}
    {next : State}
    (step : afterLiteral before opening group literal inner = .ok next) :
    next.held = group ++ before := by
  rcases afterLiteral_cases step with ⟨_, rfl⟩ | ⟨_, rfl⟩ <;> rfl

theorem held_of_afterOutside
    {before : List Token}
    {token : Token}
    {next : State}
    (step : afterOutside before token = .ok next) : next.held = token :: before := by
  rcases afterOutside_cases step with ⟨_, rfl⟩ | ⟨text, inner, rfl, _, opens⟩
  · rfl
  · exact held_of_afterLiteral opens

/-- The tokens that a lead leaves are the farthest of those that it was
given. -/
theorem Lead.before_isSuffix
    {before : List Token}
    {lead : Lead}
    (read : ofTokens before = .ok lead) : lead.before <:+ before := by
  induction before using Lead.ofTokens.induct generalizing lead with
  | case1 factor rest inductionHypothesis =>
      obtain ⟨value, restLead, _, restRead, rfl⟩ := ofTokens_factor_eq_ok_iff.mp read
      have inRest := (inductionHypothesis restRead).trans (List.suffix_cons factor rest)
      exact inRest.trans (List.suffix_cons Token.times _)
  | case2 => cases read
  | case3 sign rest =>
      cases read
      exact List.suffix_cons (.sign sign) rest
  | case4 tokens notFactor notTimes notSign =>
      rw [ofTokens_of_stops (stops_of_ne notFactor notTimes notSign)] at read
      cases read
      exact List.suffix_rfl

theorem isWord_of_finish
    {before group : List Token}
    {factors : List Rat}
    (isGroup : IsGroup group)
    (finite : ∀ factor ∈ factors, Decimal.IsFinite factor)
    (areWords : ∀ token ∈ group ++ before, token.IsWord)
    {settled : List Token}
    (finished : finish before group factors = .ok settled) :
    ∀ token ∈ settled, token.IsWord := by
  obtain ⟨enclosure, wellFormed, tokens⟩ := isGroup
  obtain ⟨lead, terms, leadRead, encloses, rfl⟩ := finish_eq_ok_iff.mp finished
  obtain ⟨groupWords, beforeWords⟩ := List.forall_mem_append.mp areWords
  have termsWellFormed : ∀ term ∈ terms, term.WellFormed := by
    rw [tokens] at encloses
    exact (Enclosure.content_of_enclosedTerms wellFormed encloses).wellFormed
  refine List.forall_mem_append.mpr ⟨fun token member => ?_, ?_⟩
  · exact beforeWords token ((Lead.before_isSuffix leadRead).subset (List.mem_reverse.mp member))
  · apply isWord_replacement lead.sign
      (List.forall_mem_append.mpr ⟨(Lead.spec leadRead).1, finite⟩) _ termsWellFormed
    exact fun token member => groupWords token (List.mem_reverse.mp member)

/-- One step of the pass settles words and holds back words. -/
theorem Step.isWord
    {state next : State}
    {token : Token}
    {settled : List Token}
    (step : Step state token settled next)
    (wellFormed : state.WellFormed)
    (areWords : ∀ token ∈ state.held, token.IsWord)
    (isWord : token.IsWord) : ∀ token ∈ settled ++ next.held, token.IsWord := by
  cases step with
  | outside outside =>
      rw [List.nil_append, held_of_afterOutside outside]
      exact List.forall_mem_cons.mpr ⟨isWord, areWords⟩
  | inside notEquals notLiteral => exact List.forall_mem_cons.mpr ⟨isWord, areWords⟩
  | literal inside =>
      rw [List.nil_append, held_of_afterLiteral inside]
      exact List.forall_mem_cons.mpr ⟨isWord, areWords⟩
  | times => exact areWords
  | finish noFactor finished outside =>
      rw [held_of_afterOutside outside]
      exact List.forall_mem_append.mpr
        ⟨isWord_of_finish wellFormed.1 wellFormed.2 areWords finished,
          List.forall_mem_singleton.mpr isWord⟩
  | factor read => exact areWords

theorem isWord_of_close
    {state : State}
    (wellFormed : state.WellFormed)
    (areWords : ∀ token ∈ state.held, token.IsWord)
    {settled : List Token}
    (closes : close state = .ok settled) : ∀ token ∈ settled, token.IsWord := by
  cases state with
  | outside before =>
      cases closes
      exact fun token member => areWords token (List.mem_reverse.mp member)
  | inside before opening group => cases closes
  | behind before group factors =>
      exact isWord_of_finish wellFormed.1 wellFormed.2 areWords closes
  | multiplying before group factors => cases closes

/-- From words the pass makes words. -/
theorem isWord_of_openFrom
    {state : State}
    (wellFormed : state.WellFormed)
    (areWords : ∀ token ∈ state.held, token.IsWord)
    {tokens opened : List Token}
    (tokenWords : ∀ token ∈ tokens, token.IsWord)
    (opens : openFrom state tokens = .ok opened) : ∀ token ∈ opened, token.IsWord := by
  induction tokens generalizing state opened with
  | nil => exact isWord_of_close wellFormed areWords opens
  | cons token rest inductionHypothesis =>
      obtain ⟨settled, next, remaining, step, restOpens, rfl⟩ := openFrom_cons_eq_ok_iff.mp opens
      obtain ⟨isWord, restWords⟩ := List.forall_mem_cons.mp tokenWords
      obtain ⟨settledWords, heldWords⟩ :=
        List.forall_mem_append.mp (step.isWord wellFormed areWords isWord)
      exact List.forall_mem_append.mpr ⟨settledWords,
        inductionHypothesis (step.wellFormed wellFormed isWord) heldWords restWords restOpens⟩

/-- Opening the groups of words makes words. -/
theorem isWord_of_openAll
    {tokens opened : List Token}
    (areWords : ∀ token ∈ tokens, token.IsWord)
    (opens : openAll tokens = .ok opened) : ∀ token ∈ opened, token.IsWord := by
  rw [openAll_eq] at opens
  -- In front of the tokens the pass holds nothing back.
  exact @isWord_of_openFrom (.outside []) (List.forall_mem_nil _) (List.forall_mem_nil _) _ _
    areWords opens

/-- The opened equation that a text writes is the tokens of a text. -/
theorem isWord_of_mem_openAll
    {text : String}
    {opened : List Token}
    (opens : openAll (Token.scan text) = .ok opened) : ∀ token ∈ opened, token.IsWord :=
  isWord_of_openAll (fun _ member => Token.isWord_of_mem_scan member) opens

end Group
end CanonicalEquation
