import CanonicalEquation.CanonicalForm
import CanonicalEquation.Proofs.Group.Words

/-!
# Opened groups

The pass leaves what it has made as it is.  A group that it kept stands behind
no factor and no `-`, and in front of no factor, and the terms that it wrote in
place of any other group have no parentheses.  So the groups of a text can be
opened before its canonical form is taken.
-/

namespace CanonicalEquation
namespace Group

/-! ## Groups that are read again -/

/-- The tokens of a group, up to where the pass stands in it, lead the pass
there wherever they are written outside of groups. -/
structure LeadsTo
    (group : List Token)
    (state : List Token → State) : Prop where
  begins : ∃ text, group.head? = some (.literal text)
  reads : ∀ before rest, openFrom (.outside before) (group ++ rest) = openFrom (state before) rest

theorem LeadsTo.concat
    {group : List Token}
    {state next : List Token → State}
    (leads : LeadsTo group state)
    {token : Token}
    (step : ∀ before, opener (state before) token = .ok ([], next before)) :
    LeadsTo (group ++ [token]) next := by
  obtain ⟨text, first⟩ := leads.begins
  refine ⟨⟨text, ?_⟩, fun before rest => ?_⟩
  · rw [List.head?_append, first, Option.some_or]
  · rw [List.append_assoc, List.singleton_append, leads.reads, openFrom_of_silent (step before)]

/-- Where the pass stands, it holds back tokens without parentheses, and the
tokens of its group would lead it there again. -/
def State.Rereads : State → Prop
  | outside before => ∀ token ∈ before, token.hasParenthesis = false
  | inside before opening group =>
      (∀ token ∈ before, token.hasParenthesis = false) ∧
        LeadsTo group.reverse fun held => inside held opening group
  | behind before group factors =>
      (∀ token ∈ before, token.hasParenthesis = false) ∧
        (LeadsTo group.reverse fun held => behind held group []) ∧
          ∀ factor ∈ factors, Decimal.IsFinite factor
  | multiplying before group factors =>
      (∀ token ∈ before, token.hasParenthesis = false) ∧
        (LeadsTo group.reverse fun held => behind held group []) ∧
          ∀ factor ∈ factors, Decimal.IsFinite factor

/-- A literal of a group leads the pass to where it stands behind it. -/
theorem rereads_of_afterLiteral
    {before : List Token}
    (plain : ∀ token ∈ before, token.hasParenthesis = false)
    {opening literal : String}
    {group : List Token}
    {inner : List Char}
    (leads : ∀ next : List Token → State,
      (∀ held, afterLiteral held opening group literal inner = .ok (next held)) →
        LeadsTo group.reverse next)
    {next : State}
    (step : afterLiteral before opening group literal inner = .ok next) : next.Rereads := by
  rcases afterLiteral_cases step with ⟨closed, rfl⟩ | ⟨closed, rfl⟩
  · exact ⟨plain, leads _ fun held => bind_eq_ok_iff.mpr ⟨false, closed, rfl⟩⟩
  · exact ⟨plain, leads _ fun held => bind_eq_ok_iff.mpr ⟨true, closed, rfl⟩,
      List.forall_mem_nil _⟩

theorem rereads_of_afterOutside
    {before : List Token}
    (plain : ∀ token ∈ before, token.hasParenthesis = false)
    {token : Token}
    {next : State}
    (step : afterOutside before token = .ok next) : next.Rereads := by
  rcases afterOutside_cases step with ⟨tokenPlain, rfl⟩ | ⟨text, inner, rfl, chars, opens⟩
  · exact List.forall_mem_cons.mpr ⟨tokenPlain, plain⟩
  · refine rereads_of_afterLiteral plain (fun next afterFirst => ?_) opens
    refine ⟨⟨text, rfl⟩, fun held rest => openFrom_of_silent ?_ rest⟩
    refine bind_eq_ok_iff.mpr ⟨next held, ?_, rfl⟩
    rw [afterOutside_opening held chars, afterFirst held]

/-- One step of the pass keeps that the tokens of its group would lead it there
again. -/
theorem Step.rereads
    {state next : State}
    {token : Token}
    {settled : List Token}
    (step : Step state token settled next)
    (rereads : state.Rereads) : next.Rereads := by
  cases step with
  | outside outside => exact rereads_of_afterOutside rereads outside
  | inside notEquals notLiteral =>
      obtain ⟨plain, leads⟩ := rereads
      refine ⟨plain, ?_⟩
      rw [List.reverse_cons]
      exact leads.concat fun held => (Step.inside notEquals notLiteral).opener_eq
  | literal inside =>
      obtain ⟨plain, leads⟩ := rereads
      refine rereads_of_afterLiteral plain (fun next afterNext => ?_) inside
      rw [List.reverse_cons]
      exact leads.concat fun held => (Step.literal (afterNext held)).opener_eq
  | times => exact rereads
  | finish noFactor finished outside =>
      exact rereads_of_afterOutside (List.forall_mem_nil _) outside
  | factor read =>
      obtain ⟨plain, leads, finite⟩ := rereads
      exact ⟨plain, leads, List.forall_mem_cons.mpr ⟨isFinite_factorOf read, finite⟩⟩

/-! ## What the pass makes of a group -/

/-- Without a factor and a `-` in front, a lead keeps all the tokens. -/
theorem Lead.of_unmultiplied
    {before : List Token}
    (notTimes : before.head? ≠ some .times)
    (notMinus : before.head? ≠ some (.sign .minus)) :
    ∃ lead, ofTokens before = .ok lead ∧ lead.factors = [] ∧ lead.sign ≠ some .minus ∧
      lead.before.reverse ++ (lead.sign.map Token.sign).toList = before.reverse := by
  induction before using Lead.ofTokens.induct with
  | case1 factor rest _ => exact absurd rfl notTimes
  | case2 => exact absurd rfl notTimes
  | case3 sign rest =>
      refine ⟨⟨[], some sign, rest⟩, rfl, rfl, ?_, List.reverse_cons.symm⟩
      rintro equal
      cases equal
      exact notMinus rfl
  | case4 tokens notFactor notAlone notSign =>
      exact ⟨⟨[], none, tokens⟩, ofTokens_of_stops (stops_of_ne notFactor notAlone notSign), rfl,
        (Option.some_ne_none _).symm, List.append_nil _⟩

/-- A lead without factors has no `*` in front of the group, and no `-` either
if that is not its sign. -/
theorem Lead.unmultiplied
    {before : List Token}
    {lead : Lead}
    (read : ofTokens before = .ok lead)
    (noFactors : lead.factors = [])
    (notMinus : lead.sign ≠ some .minus) :
    before.head? ≠ some .times ∧ before.head? ≠ some (.sign .minus) := by
  constructor
  · intro first
    obtain ⟨rest, rfl⟩ := List.head?_eq_some_iff.mp first
    exact factors_ne_nil read noFactors
  · intro first
    obtain ⟨rest, rfl⟩ := List.head?_eq_some_iff.mp first
    cases read
    exact notMinus rfl

/-- A group that nothing multiplies stays as it is. -/
theorem finish_of_unmultiplied
    {before group : List Token}
    (notTimes : before.head? ≠ some .times)
    (notMinus : before.head? ≠ some (.sign .minus))
    {terms : List Term}
    (encloses : enclosedTerms group.reverse = .ok terms) :
    finish before group [] = .ok (before.reverse ++ group.reverse) := by
  obtain ⟨lead, leadRead, noFactors, leadNotMinus, kept⟩ :=
    Lead.of_unmultiplied notTimes notMinus
  refine finish_eq_ok_iff.mpr ⟨lead, terms, leadRead, encloses, ?_⟩
  rw [replacement, if_pos (by simp [noFactors, leadNotMinus]), ← List.append_assoc, kept]

/-- A finished group has stayed as it was, and nothing multiplied it, or terms
stand in its place. -/
theorem finish_cases
    {before group : List Token}
    {factors : List Rat}
    (finite : ∀ factor ∈ factors, Decimal.IsFinite factor)
    {settled : List Token}
    (finished : finish before group factors = .ok settled) :
    (∃ terms, enclosedTerms group.reverse = .ok terms ∧ before.head? ≠ some .times ∧
        before.head? ≠ some (.sign .minus) ∧ settled = before.reverse ++ group.reverse) ∨
      ∃ held signed terms, held <:+ before ∧ terms ≠ [] ∧ (∀ term ∈ terms, term.WellFormed) ∧
        settled = held.reverse ++ termTokens signed terms := by
  obtain ⟨lead, terms, leadRead, encloses, equal⟩ := finish_eq_ok_iff.mp finished
  by_cases kept : (lead.factors ++ factors).isEmpty && lead.sign != some .minus
  · left
    obtain ⟨⟨noFactors, rfl⟩, notMinus⟩ :
        (lead.factors = [] ∧ factors = []) ∧ lead.sign ≠ some .minus := by simpa using kept
    obtain ⟨frontNotTimes, frontNotMinus⟩ := Lead.unmultiplied leadRead noFactors notMinus
    refine ⟨terms, encloses, frontNotTimes, frontNotMinus, ?_⟩
    have stays := finish_of_unmultiplied frontNotTimes frontNotMinus encloses
    rw [finished] at stays
    exact Except.ok.inj stays
  · right
    cases equal
    obtain ⟨_, read⟩ := Enclosure.enclosedTerms_eq_ok_iff_sequence.mp encloses
    obtain ⟨⟨first, rest, rfl⟩, wellFormed⟩ := Term.wellFormed_of_sequence? read
    have factorsFinite := List.forall_mem_append.mpr ⟨(Lead.spec leadRead).1, finite⟩
    refine ⟨lead.before, lead.sign.isSome,
      (first :: rest).map (multiply lead.sign (product (lead.factors ++ factors))),
      Lead.before_isSuffix leadRead, List.cons_ne_nil _ _, ?_, ?_⟩
    · exact List.forall_mem_map.mpr fun term member =>
        wellFormed_multiply lead.sign (isFinite_product factorsFinite) (wellFormed term member)
    · rw [replacement, if_neg kept]

/-! ## Lists that the pass leaves as they are -/

/-- The terms that stand in place of a group have no parentheses. -/
theorem plain_termTokens
    (signed : Bool)
    {terms : List Term}
    (wellFormed : ∀ term ∈ terms, term.WellFormed) :
    ∀ token ∈ termTokens signed terms, token.hasParenthesis = false := by
  intro token member
  rcases eq_of_mem_termTokens member with ⟨sign, rfl⟩ | ⟨term, inTerms, rfl⟩
  · rfl
  · obtain ⟨monomial, monomialWellFormed, text, _⟩ := exists_monomial (wellFormed term inTerms)
    rw [text]
    exact Side.hasParenthesis_written none monomialWellFormed

theorem getLast?_termTokens
    (signed : Bool)
    {terms : List Term}
    (nonempty : terms ≠ []) :
    ∃ text, (termTokens signed terms).getLast? = some (.literal text) := by
  obtain ⟨first, rest, rfl⟩ := List.exists_cons_of_ne_nil nonempty
  have following : ∀ (front : List Token) (term : Term),
      (front ++ followingTokens term).getLast? = some (.literal term.unsignedText) := by
    intro front term
    rw [followingTokens, ← List.singleton_append, ← List.append_assoc, List.getLast?_concat]
  rcases List.eq_nil_or_concat rest with rfl | ⟨init, last, rfl⟩
  · refine ⟨first.unsignedText, ?_⟩
    rw [termTokens, List.flatMap_nil, List.append_nil]
    unfold leadingTokens
    split
    · exact following [] first
    · rfl
  · refine ⟨last.unsignedText, ?_⟩
    rw [termTokens, List.concat_eq_append, List.flatMap_append, List.flatMap_singleton,
      ← List.append_assoc]
    exact following _ last

/-- The lists of tokens, behind the given token if there is one, whose groups
stay as they are. -/
inductive Opened : Option Token → List Token → Prop
  /-- No token is left. -/
  | nil (last : Option Token) : Opened last []
  /-- A token without parentheses. -/
  | plain
      (last : Option Token)
      {token : Token}
      (plain : token.hasParenthesis = false)
      {rest : List Token}
      (opened : Opened (some token) rest) : Opened last (token :: rest)
  /-- A group that nothing multiplies. -/
  | group
      {last : Option Token}
      (notTimes : last ≠ some .times)
      (notMinus : last ≠ some (.sign .minus))
      {group : List Token}
      (leads : LeadsTo group.reverse fun held => .behind held group [])
      {terms : List Term}
      (encloses : enclosedTerms group.reverse = .ok terms)
      {rest : List Token}
      (noFactor : rest.head? ≠ some .times)
      (opened : Opened none rest) : Opened last (group.reverse ++ rest)

namespace Opened

theorem weaken
    {last : Option Token}
    (notTimes : last ≠ some .times)
    (notMinus : last ≠ some (.sign .minus))
    {tokens : List Token}
    (opened : Opened none tokens) : Opened last tokens := by
  cases opened with
  | nil => exact .nil last
  | plain _ plain rest => exact .plain last plain rest
  | group _ _ leads encloses noFactor rest =>
      exact .group notTimes notMinus leads encloses noFactor rest

/-- Tokens without parentheses may stand in front. -/
theorem append
    {before : List Token}
    (plain : ∀ token ∈ before, token.hasParenthesis = false)
    {tokens : List Token}
    (opened : Opened before.head? tokens) : Opened none (before.reverse ++ tokens) := by
  induction before generalizing tokens with
  | nil => exact opened
  | cons token rest inductionHypothesis =>
      obtain ⟨tokenPlain, restPlain⟩ := List.forall_mem_cons.mp plain
      rw [List.reverse_cons, List.append_assoc, List.singleton_append]
      exact inductionHypothesis restPlain (.plain _ tokenPlain opened)

/-- The pass leaves such lists as they are. -/
theorem openFrom_outside
    {last : Option Token}
    {tokens : List Token}
    (opened : Opened last tokens)
    {before : List Token}
    (held : before.head? = last) :
    openFrom (.outside before) tokens = .ok (before.reverse ++ tokens) := by
  induction opened generalizing before with
  | nil => exact congrArg Except.ok (List.append_nil _).symm
  | plain last plain opened inductionHypothesis =>
      rw [Group.openFrom_outside before plain, inductionHypothesis rfl, List.reverse_cons,
        List.append_assoc, List.singleton_append]
  | group notTimes notMinus leads encloses noFactor opened inductionHypothesis =>
      subst held
      rw [leads.reads, openFrom_behind _ _ _ noFactor,
        finish_of_unmultiplied notTimes notMinus encloses, inductionHypothesis rfl]
      exact congrArg Except.ok (List.append_assoc ..)

/-- A finished group is left as it is, with anything behind it that is and does
not begin with a factor. -/
theorem of_finish
    {before group : List Token}
    {factors : List Rat}
    (rereads : (State.behind before group factors).Rereads)
    {settled : List Token}
    (finished : finish before group factors = .ok settled)
    {rest : List Token}
    (noFactor : rest.head? ≠ some .times)
    (opened : Opened none rest) : Opened none (settled ++ rest) := by
  obtain ⟨plain, leads, finite⟩ := rereads
  rcases finish_cases finite finished with
    ⟨terms, encloses, notTimes, notMinus, rfl⟩ |
      ⟨held, signed, terms, suffix, nonempty, wellFormed, rfl⟩
  · rw [List.append_assoc]
    exact append plain (.group notTimes notMinus leads encloses noFactor opened)
  · have settledPlain : ∀ token ∈ (held.reverse ++ termTokens signed terms).reverse,
        token.hasParenthesis = false := by
      intro token member
      rcases List.mem_append.mp (List.mem_reverse.mp member) with inHeld | inTerms
      · exact plain token (suffix.subset (List.mem_reverse.mp inHeld))
      · exact plain_termTokens signed wellFormed token inTerms
    obtain ⟨text, last⟩ := getLast?_termTokens signed nonempty
    rw [← List.reverse_reverse (held.reverse ++ termTokens signed terms)]
    apply append settledPlain
    rw [List.head?_reverse, List.getLast?_append, last, Option.some_or]
    apply weaken _ _ opened
    · nofun
    · nofun

end Opened

/-! ## What the pass makes -/

/-- Whether what the pass makes from where it stands begins with a token that
is held back, which is no `*`, or with a group. -/
def State.Begins (state : State) : Prop :=
  state ≠ .outside [] ∧ state.before.getLast? ≠ some .times

theorem begins_of_afterLiteral
    {before : List Token}
    (notTimes : before.getLast? ≠ some .times)
    {opening literal : String}
    {group : List Token}
    {inner : List Char}
    {next : State}
    (step : afterLiteral before opening group literal inner = .ok next) : next.Begins := by
  rcases afterLiteral_cases step with ⟨_, rfl⟩ | ⟨_, rfl⟩
  · exact ⟨nofun, notTimes⟩
  · exact ⟨nofun, notTimes⟩

theorem begins_of_afterOutside
    {before : List Token}
    (notTimes : before.getLast? ≠ some .times)
    {token : Token}
    (noFactor : before = [] → token ≠ .times)
    {next : State}
    (step : afterOutside before token = .ok next) : next.Begins := by
  rcases afterOutside_cases step with ⟨_, rfl⟩ | ⟨text, inner, rfl, _, opens⟩
  · refine ⟨nofun, ?_⟩
    cases before with
    | nil => exact fun equal => noFactor rfl (Option.some.inj equal)
    | cons last others =>
        rw [State.before, List.getLast?_cons_cons]
        exact notTimes
  · exact begins_of_afterLiteral notTimes opens

/-- What a finished group leaves begins with the farthest token in front of it,
or with the group or its first term. -/
theorem head?_of_finish
    {before group : List Token}
    {factors : List Rat}
    (rereads : (State.behind before group factors).Rereads)
    (notTimes : before.getLast? ≠ some .times)
    {settled : List Token}
    (finished : finish before group factors = .ok settled)
    (rest : List Token) : (settled ++ rest).head? ≠ some .times := by
  have head_append : ∀ {held body : List Token} {first : Token}, held <:+ before →
      body.head? = some first → first ≠ .times →
      ((held.reverse ++ body) ++ rest).head? ≠ some .times := by
    intro held body first suffix begins different
    rw [List.head?_append, List.head?_append, List.head?_reverse, begins]
    cases last : held.getLast? with
    | none => simpa using different
    | some token =>
        obtain ⟨front, rfl⟩ := suffix
        rw [List.getLast?_append, last] at notTimes
        exact notTimes
  obtain ⟨plain, leads, finite⟩ := rereads
  rcases finish_cases finite finished with
    ⟨terms, _, _, _, rfl⟩ | ⟨held, signed, terms, suffix, nonempty, _, rfl⟩
  · obtain ⟨text, begins⟩ := leads.begins
    exact head_append List.suffix_rfl begins nofun
  · obtain ⟨text, last⟩ := getLast?_termTokens signed nonempty
    have notNil : termTokens signed terms ≠ [] := by
      intro empty
      rw [empty] at last
      cases last
    apply head_append suffix (List.head?_eq_some_head notNil)
    intro isTimes
    rcases eq_of_mem_termTokens (List.head_mem notNil) with ⟨_, isSign⟩ | ⟨_, _, isLiteral⟩
    · cases isTimes.symm.trans isSign
    · cases isTimes.symm.trans isLiteral

/-- What the pass makes from such a state begins with no `*`. -/
theorem head?_of_openFrom
    {state : State}
    (rereads : state.Rereads)
    (begins : state.Begins)
    {tokens opened : List Token}
    (opens : openFrom state tokens = .ok opened) : opened.head? ≠ some .times := by
  induction tokens generalizing state opened with
  | nil =>
      cases state with
      | outside before =>
          cases opens
          rw [List.head?_reverse]
          exact begins.2
      | inside before opening group => cases opens
      | behind before group factors =>
          rw [← List.append_nil opened]
          exact head?_of_finish rereads begins.2 opens []
      | multiplying before group factors => cases opens
  | cons token rest inductionHypothesis =>
      obtain ⟨settled, next, remaining, taken, restOpens, rfl⟩ := openFrom_cons_eq_ok_iff.mp opens
      have goOn (nextBegins : next.Begins) : remaining.head? ≠ some .times :=
        inductionHypothesis (taken.rereads rereads) nextBegins restOpens
      cases taken with
      | outside outside =>
          refine goOn (begins_of_afterOutside begins.2 (fun empty => ?_) outside)
          exact absurd (congrArg State.outside empty) begins.1
      | inside notEquals notLiteral => exact goOn ⟨nofun, begins.2⟩
      | literal inside => exact goOn (begins_of_afterLiteral begins.2 inside)
      | times => exact goOn ⟨nofun, begins.2⟩
      | finish noFactor finished outside =>
          exact head?_of_finish rereads begins.2 finished remaining
      | factor read => exact goOn ⟨nofun, begins.2⟩

/-- The pass makes lists that it leaves as they are. -/
theorem opened_of_openFrom
    {state : State}
    (rereads : state.Rereads)
    {tokens opened : List Token}
    (opens : openFrom state tokens = .ok opened) : Opened none opened := by
  induction tokens generalizing state opened with
  | nil =>
      cases state with
      | outside before =>
          cases opens
          rw [← List.append_nil before.reverse]
          exact Opened.append rereads (.nil _)
      | inside before opening group => cases opens
      | behind before group factors =>
          rw [← List.append_nil opened]
          exact Opened.of_finish rereads opens nofun (.nil none)
      | multiplying before group factors => cases opens
  | cons token rest inductionHypothesis =>
      -- A step settles nothing, or it settles a finished group, and then what the rest is opened
      -- to must not begin with another factor of that group.
      obtain ⟨settled, next, remaining, taken, restOpens, rfl⟩ := openFrom_cons_eq_ok_iff.mp opens
      have nextRereads := taken.rereads rereads
      have restOpened := inductionHypothesis nextRereads restOpens
      cases taken with
      | outside outside => exact restOpened
      | inside notEquals notLiteral => exact restOpened
      | literal inside => exact restOpened
      | times => exact restOpened
      | finish noFactor finished outside =>
          have begins : next.Begins := begins_of_afterOutside (by simp) (fun _ => noFactor) outside
          exact Opened.of_finish rereads finished
            (head?_of_openFrom nextRereads begins restOpens) restOpened
      | factor read => exact restOpened

/-- What the pass has made it leaves as it is. -/
theorem openAll_of_openAll
    {tokens opened : List Token}
    (opens : openAll tokens = .ok opened) : openAll opened = .ok opened := by
  rw [openAll_eq] at opens ⊢
  -- In front of the tokens the pass holds nothing back.
  have isOpened := @opened_of_openFrom (.outside []) (List.forall_mem_nil _) _ _ opens
  exact @Opened.openFrom_outside none opened isOpened [] rfl

/-- Opening the groups of tokens twice is opening them once, whatever tokens
these are. -/
theorem openAll_idempotent (tokens : List Token) : openAll tokens >>= openAll = openAll tokens := by
  cases opens : openAll tokens with
  | error cause => rfl
  | ok opened => exact openAll_of_openAll opens

end Group

/-! ## Opened texts -/

/-- Opening the groups of a text first changes nothing.  The opened text has the
canonical form of the text, or the same error, and a text whose groups cannot be
opened has the error of its groups. -/
theorem canonicalForm_openText
    (order : PowerOrder)
    (text : String) :
    canonicalForm order text =
      (Group.openText text).mapError Error.group >>= canonicalForm order := by
  unfold Group.openText
  by_cases grouped : (Token.scan text).any Token.hasParenthesis = true
  · rw [if_pos grouped]
    cases opens : Group.openAll (Token.scan text) with
    | error cause =>
        rw [canonicalForm, opens]
        rfl
    | ok opened =>
        have scanned : Token.scan (Token.spacedText opened) = opened :=
          Token.scan_spacedText (Group.isWord_of_mem_openAll opens)
        have again : canonicalForm order (Token.spacedText opened) = canonicalForm order text := by
          rw [canonicalForm, canonicalForm, scanned, Group.openAll_of_openAll opens, opens]
        exact again.symm
  · rw [if_neg grouped]
    rfl

end CanonicalEquation
