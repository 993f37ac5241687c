import CanonicalEquation.Proofs.Error
import CanonicalEquation.Proofs.Group.Words

/-!
# What group errors quote

An error of the pass quotes a token or the content of a group.  So what it
quotes has only the characters of tokens that the pass has read, the spaces
between them, and the `*` that has no factor behind it.
-/

namespace CanonicalEquation
namespace Group

/-- Whether an error quotes only the characters of tokens, spaces and
multiplication signs. -/
def Quotes (tokens : List Token) (cause : GroupError) : Prop :=
  ∀ c ∈ cause.quoted.toList, c = ' ' ∨ c = '*' ∨ ∃ token ∈ tokens, c ∈ token.text.toList

theorem Quotes.mono
    {tokens others : List Token}
    {cause : GroupError}
    (quotes : Quotes tokens cause)
    (contained : ∀ token ∈ tokens, token ∈ others) : Quotes others cause := by
  intro c member
  rcases quotes c member with space | star | ⟨token, inTokens, inText⟩
  · exact .inl space
  · exact .inr (.inl star)
  · exact .inr (.inr ⟨token, contained token inTokens, inText⟩)

theorem quotes_of_token
    {tokens : List Token}
    {token : Token}
    (member : token ∈ tokens)
    {cause : GroupError}
    (quoted : cause.quoted = token.text) : Quotes tokens cause :=
  fun _ inQuoted => .inr (.inr ⟨token, member, quoted ▸ inQuoted⟩)

/-! ## The errors of one token -/

theorem quoted_of_closes
    {literal : String}
    {inner : List Char}
    {cause : GroupError}
    (failed : closes literal inner = .error cause) : cause.quoted = literal := by
  unfold closes at failed
  split at failed
  · cases failed
    rfl
  · split at failed
    · cases failed
    · cases failed
    · cases failed
      rfl

theorem quoted_of_afterLiteral
    {before : List Token}
    {opening : String}
    {group : List Token}
    {literal : String}
    {inner : List Char}
    {cause : GroupError}
    (failed : afterLiteral before opening group literal inner = .error cause) :
    cause.quoted = literal := by
  rcases bind_eq_error_iff.mp failed with failed | ⟨isLast, _, goesOn⟩
  · exact quoted_of_closes failed
  · cases isLast <;> cases goesOn

theorem quoted_of_afterOutside
    {before : List Token}
    {token : Token}
    {cause : GroupError}
    (failed : afterOutside before token = .error cause) : cause.quoted = token.text := by
  cases token with
  | sign sign => cases failed
  | equals => cases failed
  | times => cases failed
  | literal text =>
      by_cases opening : ∃ inner, text.toList = '(' :: inner
      · obtain ⟨inner, chars⟩ := opening
        rw [afterOutside_opening before chars] at failed
        exact quoted_of_afterLiteral failed
      · rw [afterOutside_literal before (not_exists.mp opening)] at failed
        split at failed
        · cases failed
          rfl
        · split at failed
          · cases failed
            rfl
          · cases failed

theorem quoted_of_factorOf
    {token : Token}
    {cause : GroupError}
    (failed : factorOf token = .error cause) : cause.quoted = token.text := by
  cases token with
  | sign sign =>
      cases failed
      rfl
  | equals =>
      cases failed
      rfl
  | times =>
      cases failed
      rfl
  | literal text =>
      simp only [factorOf] at failed
      split at failed
      · cases failed
      · cases failed
        rfl

/-! ## The errors of a finished group -/

theorem Lead.quotes_of_ofTokens
    {before : List Token}
    {cause : GroupError}
    (failed : ofTokens before = .error cause) : Quotes before cause := by
  induction before using Lead.ofTokens.induct with
  | case1 factor rest inductionHypothesis =>
      have inTokens : ∀ token ∈ rest, token ∈ .times :: factor :: rest := fun token member =>
        List.mem_cons_of_mem _ (List.mem_cons_of_mem factor member)
      rcases bind_eq_error_iff.mp failed with noFactor | ⟨value, _, failed⟩
      · exact quotes_of_token (List.mem_cons_of_mem _ List.mem_cons_self)
          (quoted_of_factorOf noFactor)
      · rcases bind_eq_error_iff.mp failed with restFailed | ⟨lead, _, goesOn⟩
        · exact (inductionHypothesis restFailed).mono inTokens
        · cases goesOn
  | case2 =>
      cases failed
      have member : Token.times ∈ [Token.times] := List.mem_cons_self
      exact quotes_of_token member rfl
  | case3 sign rest => cases failed
  | case4 tokens notFactor notTimes notSign =>
      rw [ofTokens_of_stops (stops_of_ne notFactor notTimes notSign)] at failed
      cases failed

theorem quotes_of_enclosedTerms
    {group : List Token}
    {cause : GroupError}
    (failed : enclosedTerms group = .error cause) : Quotes group cause := by
  simp only [enclosedTerms] at failed
  split at failed
  · cases failed
    exact fun c member => absurd member List.not_mem_nil
  · split at failed
    · cases failed
    · cases failed
      intro c member
      rw [GroupError.quoted, enclosedText, String.toList_ofList] at member
      have inSpaced : c ∈ (Token.spacedText group).toList :=
        List.mem_of_mem_drop (List.dropLast_subset _ (Text.trim_subset _ member))
      rw [Token.toList_spacedText] at inSpaced
      rcases Text.mem_intercalate inSpaced with space | ⟨text, inTexts, inText⟩
      · exact .inl space
      · obtain ⟨token, inGroup, rfl⟩ := List.mem_map.mp inTexts
        exact .inr (.inr ⟨token, inGroup, inText⟩)

theorem quotes_of_finish
    {before group : List Token}
    {factors : List Rat}
    {cause : GroupError}
    (failed : finish before group factors = .error cause) : Quotes (group ++ before) cause := by
  rcases bind_eq_error_iff.mp failed with noLead | ⟨lead, _, failed⟩
  · exact (Lead.quotes_of_ofTokens noLead).mono fun token => List.mem_append_right group
  · rcases bind_eq_error_iff.mp failed with noTerms | ⟨terms, _, goesOn⟩
    · exact (quotes_of_enclosedTerms noTerms).mono fun token member =>
        List.mem_append_left before (List.mem_reverse.mp member)
    · cases goesOn

/-! ## The errors of the pass -/

/-- Whether the literal that began a group is held back with it. -/
def State.HoldsOpening : State → Prop
  | inside _ opening group => .literal opening ∈ group
  | _ => True

theorem holdsOpening_of_afterLiteral
    {before : List Token}
    {opening : String}
    {group : List Token}
    (holds : .literal opening ∈ group)
    {literal : String}
    {inner : List Char}
    {next : State}
    (step : afterLiteral before opening group literal inner = .ok next) : next.HoldsOpening := by
  rcases afterLiteral_cases step with ⟨_, rfl⟩ | ⟨_, rfl⟩
  · exact holds
  · exact trivial

theorem holdsOpening_of_afterOutside
    {before : List Token}
    {token : Token}
    {next : State}
    (step : afterOutside before token = .ok next) : next.HoldsOpening := by
  rcases afterOutside_cases step with ⟨_, rfl⟩ | ⟨text, inner, rfl, _, opens⟩
  · exact trivial
  · exact holdsOpening_of_afterLiteral List.mem_cons_self opens

theorem Step.holdsOpening
    {state next : State}
    {token : Token}
    {settled : List Token}
    (step : Step state token settled next)
    (holds : state.HoldsOpening) : next.HoldsOpening := by
  cases step with
  | outside outside => exact holdsOpening_of_afterOutside outside
  | inside notEquals notLiteral => exact List.mem_cons_of_mem _ holds
  | literal inside => exact holdsOpening_of_afterLiteral (List.mem_cons_of_mem _ holds) inside
  | times => exact trivial
  | finish noFactor finished outside => exact holdsOpening_of_afterOutside outside
  | factor read => exact trivial

/-- The pass holds back nothing but what it held back and what it reads. -/
theorem Step.held_subset
    {state next : State}
    {token : Token}
    {settled : List Token}
    (step : Step state token settled next) : ∀ other ∈ next.held, other ∈ token :: state.held := by
  intro other member
  cases step with
  | outside outside =>
      rw [held_of_afterOutside outside] at member
      exact member
  | inside notEquals notLiteral => exact member
  | literal inside =>
      rw [held_of_afterLiteral inside] at member
      exact member
  | times => exact List.mem_cons_of_mem _ member
  | finish noFactor finished outside =>
      rw [held_of_afterOutside outside] at member
      exact List.mem_singleton.mp member ▸ List.mem_cons_self
  | factor read => exact List.mem_cons_of_mem _ member

theorem quotes_of_opener
    {state : State}
    (holds : state.HoldsOpening)
    {token : Token}
    {cause : GroupError}
    (failed : opener state token = .error cause) : Quotes (token :: state.held) cause := by
  have quotesToken : cause.quoted = token.text → Quotes (token :: state.held) cause :=
    quotes_of_token List.mem_cons_self
  cases state with
  | outside before =>
      rcases bind_eq_error_iff.mp failed with failed | ⟨next, _, goesOn⟩
      · exact quotesToken (quoted_of_afterOutside failed)
      · cases goesOn
  | inside before opening group =>
      cases token with
      | equals =>
          cases failed
          exact quotes_of_token (List.mem_cons_of_mem _ (List.mem_append_left before holds)) rfl
      | sign sign => cases failed
      | times => cases failed
      | literal text =>
          rcases bind_eq_error_iff.mp failed with failed | ⟨next, _, goesOn⟩
          · exact quotesToken (quoted_of_afterLiteral failed)
          · cases goesOn
  | behind before group factors =>
      by_cases factor : token = .times
      · subst factor
        cases failed
      · rw [opener_behind before group factors factor] at failed
        rcases bind_eq_error_iff.mp failed with unfinished | ⟨settled, _, failed⟩
        · exact (quotes_of_finish unfinished).mono fun other => List.mem_cons_of_mem token
        · rcases bind_eq_error_iff.mp failed with failed | ⟨next, _, goesOn⟩
          · exact quotesToken (quoted_of_afterOutside failed)
          · cases goesOn
  | multiplying before group factors =>
      rcases bind_eq_error_iff.mp failed with failed | ⟨value, _, goesOn⟩
      · exact quotesToken (quoted_of_factorOf failed)
      · cases goesOn

theorem quotes_of_close
    {state : State}
    (holds : state.HoldsOpening)
    {cause : GroupError}
    (failed : close state = .error cause) : Quotes state.held cause := by
  cases state with
  | outside before => cases failed
  | inside before opening group =>
      cases failed
      exact quotes_of_token (List.mem_append_left before holds) rfl
  | behind before group factors => exact quotes_of_finish failed
  | multiplying before group factors =>
      cases failed
      intro c member
      have star : c = '*' := by simpa [GroupError.quoted] using member
      exact .inr (.inl star)

/-- The pass quotes what it held back and what it reads. -/
theorem quotes_of_openFrom
    {state : State}
    (holds : state.HoldsOpening)
    {tokens : List Token}
    {cause : GroupError}
    (failed : openFrom state tokens = .error cause) : Quotes (state.held ++ tokens) cause := by
  induction tokens generalizing state with
  | nil =>
      rw [List.append_nil]
      exact quotes_of_close holds failed
  | cons token rest inductionHypothesis =>
      rcases bind_eq_error_iff.mp failed with stepFailed | ⟨⟨settled, next⟩, stepped, failed⟩
      · refine (quotes_of_opener holds stepFailed).mono fun other member => ?_
        rcases List.mem_cons.mp member with rfl | inHeld
        · exact List.mem_append_right _ List.mem_cons_self
        · exact List.mem_append_left _ inHeld
      · have step := step_of_opener stepped
        rcases bind_eq_error_iff.mp failed with restFailed | ⟨remaining, _, goesOn⟩
        · refine (inductionHypothesis (step.holdsOpening holds) restFailed).mono ?_
          intro other member
          rcases List.mem_append.mp member with inNext | inRest
          · rcases List.mem_cons.mp (step.held_subset other inNext) with rfl | inHeld
            · exact List.mem_append_right _ List.mem_cons_self
            · exact List.mem_append_left _ inHeld
          · exact List.mem_append_right _ (List.mem_cons_of_mem token inRest)
        · cases goesOn

/-- The errors of opening the groups of tokens quote nothing but these. -/
theorem quotes_of_openAll
    {tokens : List Token}
    {cause : GroupError}
    (failed : openAll tokens = .error cause) : Quotes tokens cause := by
  rw [openAll_eq] at failed
  exact @quotes_of_openFrom (.outside []) trivial tokens cause failed

/-- What is quoted of the groups of a text has no blanks but spaces. -/
theorem blank_of_mem_quoted
    {text : String}
    {cause : GroupError}
    (failed : openAll (Token.scan text) = .error cause) :
    ∀ c ∈ cause.quoted.toList, c = ' ' ∨ Text.isBlank c = false := by
  intro c member
  rcases quotes_of_openAll failed c member with space | rfl | ⟨token, inText, inToken⟩
  · exact .inl space
  · exact .inr (by decide)
  · exact .inr ((Token.isWord_of_mem_scan inText).solid c inToken)

end Group
end CanonicalEquation
