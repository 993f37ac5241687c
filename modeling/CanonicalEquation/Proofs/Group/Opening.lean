import CanonicalEquation.Group.Opening
import CanonicalEquation.Proofs.Result
import CanonicalEquation.Proofs.Token
import Mathlib.Data.List.Basic

/-!
# The pass that opens groups

What the pass makes of a list of tokens is a function of where it stands.  Each
of its steps is one of six, and a group is finished where no further factor
follows it.
-/

namespace CanonicalEquation
namespace Group

/-! ## What the pass makes of tokens -/

/-- Opens the groups of tokens, from where the pass stands. -/
def openFrom (state : State) : List Token → Except GroupError (List Token)
  | [] => close state
  | token :: rest => do
      let (settled, next) ← opener state token
      let remaining ← openFrom next rest
      return settled ++ remaining

theorem run_opener
    (state : State)
    (tokens : List Token) :
    (do
      let (settled, last) ← opener.run state tokens
      let remaining ← close last
      return settled ++ remaining) = openFrom state tokens := by
  induction tokens generalizing state with
  | nil =>
      change (close state >>= fun remaining => .ok ([] ++ remaining)) = close state
      cases close state <;> rfl
  | cons token rest inductionHypothesis =>
      rw [openFrom, Machine.run]
      cases opener state token with
      | error error => rfl
      | ok step =>
          change _ = (do
            let remaining ← openFrom step.2 rest
            return step.1 ++ remaining)
          rw [← inductionHypothesis]
          cases later : Machine.run opener step.2 rest with
          | error error =>
              simp only [later]
              rfl
          | ok result =>
              simp only [later]
              change (close result.2 >>= fun remaining =>
                  .ok ((step.1 ++ result.1) ++ remaining)) =
                (close result.2 >>= fun remaining => .ok (result.1 ++ remaining)) >>=
                  fun remaining => .ok (step.1 ++ remaining)
              cases close result.2 with
              | error error => rfl
              | ok remaining => exact congrArg Except.ok (List.append_assoc _ _ _)

theorem openAll_eq (tokens : List Token) : openAll tokens = openFrom (.outside []) tokens :=
  run_opener (.outside []) tokens

theorem openAll_eq_ok_iff
    {tokens opened : List Token} :
    openAll tokens = .ok opened ↔
      ∃ settled last remaining, opener.run (.outside []) tokens = .ok (settled, last) ∧
        close last = .ok remaining ∧ settled ++ remaining = opened := by
  constructor
  · intro opens
    obtain ⟨⟨settled, last⟩, run, finishes⟩ := bind_eq_ok_iff.mp opens
    obtain ⟨remaining, closes, equal⟩ := bind_eq_ok_iff.mp finishes
    exact ⟨settled, last, remaining, run, closes, Except.ok.inj equal⟩
  · rintro ⟨settled, last, remaining, run, closes, rfl⟩
    exact bind_eq_ok_iff.mpr ⟨(settled, last), run, bind_eq_ok_iff.mpr ⟨remaining, closes, rfl⟩⟩

/-- What the pass makes of tokens in a row depends on the first of them only
through where the pass stands behind them. -/
theorem openFrom_append_eq
    (state : State)
    (former latter : List Token) :
    openFrom state (former ++ latter) =
      opener.run state former >>= fun result =>
        openFrom result.2 latter >>= fun remaining => .ok (result.1 ++ remaining) := by
  rw [← run_opener, Machine.run_append]
  cases opener.run state former with
  | error error => rfl
  | ok result =>
      change _ = openFrom result.2 latter >>= fun remaining => .ok (result.1 ++ remaining)
      rw [← run_opener]
      cases latterRun : opener.run result.2 latter with
      | error error =>
          simp only [latterRun]
          rfl
      | ok last =>
          simp only [latterRun]
          change (close last.2 >>= fun remaining => .ok ((result.1 ++ last.1) ++ remaining)) =
            (close last.2 >>= fun remaining => .ok (last.1 ++ remaining)) >>=
              fun remaining => .ok (result.1 ++ remaining)
          cases close last.2 with
          | error error => rfl
          | ok remaining => exact congrArg Except.ok (List.append_assoc _ _ _)

/-! ## One token at a time -/

theorem openFrom_of_silent
    {state next : State}
    {token : Token}
    (step : opener state token = .ok ([], next))
    (rest : List Token) : openFrom state (token :: rest) = openFrom next rest := by
  rw [openFrom, step]
  change (openFrom next rest >>= fun remaining => .ok ([] ++ remaining)) = _
  cases openFrom next rest <;> rfl

theorem openFrom_of_error
    {state : State}
    {token : Token}
    {cause : GroupError}
    (failed : opener state token = .error cause)
    (rest : List Token) : openFrom state (token :: rest) = .error cause := by
  rw [openFrom, failed]
  rfl

/-- A literal that begins with an opening parenthesis begins a group. -/
theorem afterOutside_opening
    (before : List Token)
    {text : String}
    {inner : List Char}
    (chars : text.toList = '(' :: inner) :
    afterOutside before (.literal text) =
      afterLiteral before text [.literal text] text inner := by
  simp only [afterOutside, chars]

/-- Any other literal must not hold a parenthesis. -/
theorem afterOutside_literal
    (before : List Token)
    {text : String}
    (notOpening : ∀ inner, text.toList ≠ '(' :: inner) :
    afterOutside before (.literal text) =
      if text.toList.contains '(' then
        .error (.notTerms text)
      else if text.toList.contains ')' then
        .error (.unbalanced text)
      else
        .ok (.outside (.literal text :: before)) := by
  simp only [afterOutside]

/-- A token without parentheses is held back outside of groups. -/
theorem afterOutside_plain
    (before : List Token)
    {token : Token}
    (plain : token.hasParenthesis = false) :
    afterOutside before token = .ok (.outside (token :: before)) := by
  cases token with
  | sign sign => rfl
  | equals => rfl
  | times => rfl
  | literal text =>
      have absent := Token.hasParenthesis_literal_eq_false_iff.mp plain
      have noOpening : text.toList.contains '(' = false := by
        simpa using fun member => (absent '(' member).1 rfl
      have noClosing : text.toList.contains ')' = false := by
        simpa using fun member => (absent ')' member).2 rfl
      have notOpening : ∀ inner, text.toList ≠ '(' :: inner := fun inner chars =>
        absurd rfl (absent '(' (by simp [chars])).1
      rw [afterOutside_literal before notOpening, noOpening, noClosing]
      rfl

/-- A token outside of groups is held back, or begins a group. -/
theorem afterOutside_cases
    {before : List Token}
    {token : Token}
    {next : State}
    (step : afterOutside before token = .ok next) :
    token.hasParenthesis = false ∧ next = .outside (token :: before) ∨
      ∃ text inner, token = .literal text ∧ text.toList = '(' :: inner ∧
        afterLiteral before text [.literal text] text inner = .ok next := by
  have outside_of_plain (plain : token.hasParenthesis = false) :
      next = .outside (token :: before) := by
    rw [afterOutside_plain before plain] at step
    cases step
    rfl
  cases token with
  | sign sign => exact .inl ⟨rfl, outside_of_plain rfl⟩
  | equals => exact .inl ⟨rfl, outside_of_plain rfl⟩
  | times => exact .inl ⟨rfl, outside_of_plain rfl⟩
  | literal text =>
      by_cases opening : ∃ inner, text.toList = '(' :: inner
      · obtain ⟨inner, chars⟩ := opening
        rw [afterOutside_opening before chars] at step
        exact .inr ⟨text, inner, rfl, chars, step⟩
      · left
        rw [afterOutside_literal before (not_exists.mp opening)] at step
        split at step
        · cases step
        next noOpening =>
          split at step
          · cases step
          next noClosing =>
            cases step
            refine ⟨?_, rfl⟩
            have absent : '(' ∉ text.toList ∧ ')' ∉ text.toList := by
              simpa using And.intro noOpening noClosing
            rw [Token.hasParenthesis_literal_eq_false_iff]
            exact fun c member => ⟨fun opening => absent.1 (opening ▸ member),
              fun closing => absent.2 (closing ▸ member)⟩

/-- A literal of a group lets it go on, or ends it. -/
theorem afterLiteral_cases
    {before : List Token}
    {opening : String}
    {group : List Token}
    {literal : String}
    {inner : List Char}
    {next : State}
    (step : afterLiteral before opening group literal inner = .ok next) :
    closes literal inner = .ok false ∧ next = .inside before opening group ∨
      closes literal inner = .ok true ∧ next = .behind before group [] := by
  obtain ⟨isLast, closed, step⟩ := bind_eq_ok_iff.mp step
  cases isLast with
  | false =>
      cases step
      exact .inl ⟨closed, rfl⟩
  | true =>
      cases step
      exact .inr ⟨closed, rfl⟩

theorem openFrom_outside
    (before : List Token)
    {token : Token}
    (plain : token.hasParenthesis = false)
    (rest : List Token) :
    openFrom (.outside before) (token :: rest) = openFrom (.outside (token :: before)) rest := by
  apply openFrom_of_silent
  change (afterOutside before token >>= fun next => .ok ([], next)) = _
  rw [afterOutside_plain before plain]
  rfl

/-- Tokens without parentheses are held back outside of groups. -/
theorem openFrom_outside_append
    (before : List Token)
    {tokens : List Token}
    (plain : ∀ token ∈ tokens, token.hasParenthesis = false)
    (rest : List Token) :
    openFrom (.outside before) (tokens ++ rest) =
      openFrom (.outside (tokens.reverse ++ before)) rest := by
  induction tokens generalizing before with
  | nil => rfl
  | cons token others inductionHypothesis =>
      rw [List.cons_append, openFrom_outside before (plain token List.mem_cons_self),
        inductionHypothesis _ fun token member => plain token (List.mem_cons_of_mem _ member),
        List.reverse_cons, List.append_assoc, List.singleton_append]

/-- Tokens without parentheses stay as they are. -/
theorem openAll_plain
    {tokens : List Token}
    (plain : ∀ token ∈ tokens, token.hasParenthesis = false) : openAll tokens = .ok tokens := by
  have opens := openFrom_outside_append [] plain []
  rw [List.append_nil, List.append_nil] at opens
  rw [openAll_eq, opens]
  exact congrArg Except.ok (List.reverse_reverse tokens)

theorem openFrom_behind_times
    (before group : List Token)
    (factors : List Rat)
    (rest : List Token) :
    openFrom (.behind before group factors) (.times :: rest) =
      openFrom (.multiplying before group factors) rest :=
  openFrom_of_silent rfl rest

theorem openFrom_multiplying
    (before group : List Token)
    (factors : List Rat)
    (token : Token)
    (rest : List Token) :
    openFrom (.multiplying before group factors) (token :: rest) =
      factorOf token >>= fun factor =>
        openFrom (.behind before group (factor :: factors)) rest := by
  have step : opener (.multiplying before group factors) token =
      factorOf token >>= fun factor =>
        .ok ([], State.behind before group (factor :: factors)) := rfl
  cases read : factorOf token with
  | error error =>
      rw [read] at step
      exact openFrom_of_error step rest
  | ok factor =>
      rw [read] at step
      exact openFrom_of_silent step rest

/-- A token behind a group that is no `*` finishes the group, and is read
outside of it. -/
theorem opener_behind
    (before group : List Token)
    (factors : List Rat)
    {token : Token}
    (noFactor : token ≠ .times) :
    opener (.behind before group factors) token =
      finish before group factors >>= fun settled =>
        afterOutside [] token >>= fun next => .ok (settled, next) := by
  cases token with
  | times => exact absurd rfl noFactor
  | sign sign => rfl
  | equals => rfl
  | literal text => rfl

/-- The steps of the pass: what a token settles, and where the pass stands
behind it. -/
inductive Step : State → Token → List Token → State → Prop
  /-- A token outside of groups. -/
  | outside
      {before : List Token}
      {token : Token}
      {next : State}
      (outside : afterOutside before token = .ok next) : Step (.outside before) token [] next
  /-- A sign or a `*` inside of a group. -/
  | inside
      {before group : List Token}
      {opening : String}
      {token : Token}
      (notEquals : token ≠ .equals)
      (notLiteral : ∀ text, token ≠ .literal text) :
      Step (.inside before opening group) token [] (.inside before opening (token :: group))
  /-- A literal inside of a group. -/
  | literal
      {before group : List Token}
      {opening text : String}
      {next : State}
      (inside : afterLiteral before opening (.literal text :: group) text text.toList = .ok next) :
      Step (.inside before opening group) (.literal text) [] next
  /-- A `*` behind a group. -/
  | times
      {before group : List Token}
      {factors : List Rat} :
      Step (.behind before group factors) .times [] (.multiplying before group factors)
  /-- Any other token behind a group, which is finished. -/
  | finish
      {before group settled : List Token}
      {factors : List Rat}
      {token : Token}
      {next : State}
      (noFactor : token ≠ .times)
      (finished : finish before group factors = .ok settled)
      (outside : afterOutside [] token = .ok next) :
      Step (.behind before group factors) token settled next
  /-- A factor of a group. -/
  | factor
      {before group : List Token}
      {factors : List Rat}
      {token : Token}
      {value : Rat}
      (read : factorOf token = .ok value) :
      Step (.multiplying before group factors) token [] (.behind before group (value :: factors))

theorem step_of_opener
    {state next : State}
    {token : Token}
    {settled : List Token}
    (step : opener state token = .ok (settled, next)) : Step state token settled next := by
  cases state with
  | outside before =>
      obtain ⟨found, outside, equal⟩ := bind_eq_ok_iff.mp step
      cases equal
      exact .outside outside
  | inside before opening group =>
      cases token with
      | equals => cases step
      | sign sign =>
          cases step
          exact .inside nofun nofun
      | times =>
          cases step
          exact .inside nofun nofun
      | literal text =>
          obtain ⟨found, inside, equal⟩ := bind_eq_ok_iff.mp step
          cases equal
          exact .literal inside
  | behind before group factors =>
      by_cases factor : token = .times
      · subst factor
        cases step
        exact .times
      · rw [opener_behind before group factors factor] at step
        obtain ⟨finishedTokens, finished, step⟩ := bind_eq_ok_iff.mp step
        obtain ⟨found, outside, equal⟩ := bind_eq_ok_iff.mp step
        cases equal
        exact .finish factor finished outside
  | multiplying before group factors =>
      obtain ⟨value, read, equal⟩ := bind_eq_ok_iff.mp step
      cases equal
      exact .factor read

theorem Step.opener_eq
    {state next : State}
    {token : Token}
    {settled : List Token}
    (step : Step state token settled next) : opener state token = .ok (settled, next) := by
  cases step with
  | outside outside => exact bind_eq_ok_iff.mpr ⟨_, outside, rfl⟩
  | inside notEquals notLiteral =>
      cases token with
      | equals => exact absurd rfl notEquals
      | sign sign => rfl
      | times => rfl
      | literal text => exact absurd rfl (notLiteral text)
  | literal inside => exact bind_eq_ok_iff.mpr ⟨_, inside, rfl⟩
  | times => rfl
  | finish noFactor finished outside =>
      rw [opener_behind _ _ _ noFactor, finished, outside]
      rfl
  | factor read => exact bind_eq_ok_iff.mpr ⟨_, read, rfl⟩

/-- The pass opens tokens one step at a time. -/
theorem openFrom_cons_eq_ok_iff
    {state : State}
    {token : Token}
    {rest opened : List Token} :
    openFrom state (token :: rest) = .ok opened ↔
      ∃ settled next remaining, Step state token settled next ∧
        openFrom next rest = .ok remaining ∧ settled ++ remaining = opened := by
  constructor
  · intro opens
    obtain ⟨⟨settled, next⟩, step, opens⟩ := bind_eq_ok_iff.mp opens
    obtain ⟨remaining, restOpens, equal⟩ := bind_eq_ok_iff.mp opens
    exact ⟨settled, next, remaining, step_of_opener step, restOpens, Except.ok.inj equal⟩
  · rintro ⟨settled, next, remaining, step, restOpens, rfl⟩
    exact bind_eq_ok_iff.mpr
      ⟨(settled, next), step.opener_eq, bind_eq_ok_iff.mpr ⟨remaining, restOpens, rfl⟩⟩

theorem finish_eq_ok_iff
    {before group : List Token}
    {factors : List Rat}
    {settled : List Token} :
    finish before group factors = .ok settled ↔
      ∃ lead terms, Lead.ofTokens before = .ok lead ∧
        enclosedTerms group.reverse = .ok terms ∧
        lead.before.reverse ++
          replacement lead.sign (lead.factors ++ factors) group.reverse terms = settled := by
  constructor
  · intro finished
    obtain ⟨lead, leadRead, finished⟩ := bind_eq_ok_iff.mp finished
    obtain ⟨terms, encloses, equal⟩ := bind_eq_ok_iff.mp finished
    exact ⟨lead, terms, leadRead, encloses, Except.ok.inj equal⟩
  · rintro ⟨lead, terms, leadRead, encloses, rfl⟩
    exact bind_eq_ok_iff.mpr
      ⟨lead, leadRead, bind_eq_ok_iff.mpr ⟨terms, encloses, rfl⟩⟩

/-- Where a group has no further factor, it is finished, and what follows is
opened apart. -/
theorem openFrom_behind
    (before group : List Token)
    (factors : List Rat)
    {rest : List Token}
    (noFactor : rest.head? ≠ some .times) :
    openFrom (.behind before group factors) rest =
      finish before group factors >>= fun settled =>
        openFrom (.outside []) rest >>= fun remaining => .ok (settled ++ remaining) := by
  cases rest with
  | nil =>
      change finish before group factors = finish before group factors >>= fun settled =>
        .ok (settled ++ [])
      cases finish before group factors with
      | error error => rfl
      | ok settled => exact congrArg Except.ok (List.append_nil settled).symm
  | cons token rest =>
      have notTimes : token ≠ .times := fun equal => noFactor (congrArg some equal)
      rw [openFrom, opener_behind before group factors notTimes, openFrom]
      change _ = finish before group factors >>= fun settled =>
        (afterOutside [] token >>= fun next => .ok ([], next)) >>= (fun step =>
          openFrom step.2 rest >>= fun remaining => .ok (step.1 ++ remaining)) >>=
            fun remaining => .ok (settled ++ remaining)
      cases finish before group factors with
      | error error => rfl
      | ok settled =>
          cases afterOutside [] token with
          | error error => rfl
          | ok next =>
              change (openFrom next rest >>= fun remaining => .ok (settled ++ remaining)) =
                (openFrom next rest >>= fun remaining => .ok ([] ++ remaining)) >>=
                  fun remaining => .ok (settled ++ remaining)
              cases openFrom next rest <;> rfl

/-- Where a group that is finished has no further factor, its tokens are settled
behind those that were settled before. -/
theorem openFrom_behind_of_finish
    {before group more : List Token}
    {factors : List Rat}
    (finished : finish before group factors = .ok more)
    {rest : List Token}
    (noFactor : rest.head? ≠ some .times)
    (settled : List Token) :
    (openFrom (.behind before group factors) rest >>= fun remaining =>
        .ok (settled ++ remaining)) =
      openFrom (.outside []) rest >>= fun remaining => .ok ((settled ++ more) ++ remaining) := by
  rw [openFrom_behind before group factors noFactor, finished]
  cases openFrom (.outside []) rest with
  | error error => rfl
  | ok remaining => exact congrArg Except.ok (List.append_assoc settled more remaining).symm

/-! ## The lead of a group -/

theorem Lead.ofTokens_factor_eq_ok_iff
    {factor : Token}
    {rest : List Token}
    {lead : Lead} :
    ofTokens (.times :: factor :: rest) = .ok lead ↔
      ∃ value restLead, factorOf factor = .ok value ∧ ofTokens rest = .ok restLead ∧
        { restLead with factors := value :: restLead.factors } = lead := by
  constructor
  · intro read
    obtain ⟨value, valueRead, read⟩ := bind_eq_ok_iff.mp read
    obtain ⟨restLead, restRead, equal⟩ := bind_eq_ok_iff.mp read
    exact ⟨value, restLead, valueRead, restRead, Except.ok.inj equal⟩
  · rintro ⟨value, restLead, valueRead, restRead, rfl⟩
    exact bind_eq_ok_iff.mpr
      ⟨value, valueRead, bind_eq_ok_iff.mpr ⟨restLead, restRead, rfl⟩⟩

/-- A `*` in front of a group gives the group a factor. -/
theorem Lead.factors_ne_nil
    {rest : List Token}
    {lead : Lead}
    (read : ofTokens (.times :: rest) = .ok lead) : lead.factors ≠ [] := by
  cases rest with
  | nil => cases read
  | cons factor others =>
      obtain ⟨value, restLead, _, _, rfl⟩ := ofTokens_factor_eq_ok_iff.mp read
      exact List.cons_ne_nil _ _

/-- Whether no lead begins with tokens. -/
def Lead.Stops (tokens : List Token) : Prop :=
  ∀ token ∈ tokens.head?, token ≠ .times ∧ token.isSign = false

theorem Lead.stops_of_ne
    {tokens : List Token}
    (notFactor : ∀ factor rest, tokens = .times :: factor :: rest → False)
    (notTimes : tokens = [.times] → False)
    (notSign : ∀ sign rest, tokens = .sign sign :: rest → False) : Stops tokens := by
  intro token first
  obtain ⟨rest, rfl⟩ := List.head?_eq_some_iff.mp first
  constructor
  · rintro rfl
    cases rest with
    | nil => exact notTimes rfl
    | cons factor others => exact notFactor factor others rfl
  · cases token with
    | sign sign => exact (notSign sign rest rfl).elim
    | equals => rfl
    | times => rfl
    | literal text => rfl

theorem Lead.ofTokens_of_stops
    {tokens : List Token}
    (stops : Stops tokens) : ofTokens tokens = .ok ⟨[], none, tokens⟩ := by
  cases tokens with
  | nil => rfl
  | cons token rest =>
      cases token with
      | equals => rfl
      | literal text => rfl
      | times => exact absurd rfl (stops .times rfl).1
      | sign sign => exact absurd (stops (.sign sign) rfl).2 nofun

end Group
end CanonicalEquation
