import CanonicalEquation.Proofs.Error
import CanonicalEquation.Proofs.Group.Opening

/-!
# Opening in pieces

The tokens in front of a group matter only where the group is finished, and
there only up to a sign or an equality sign.  So a list of tokens whose groups
are complete can be opened apart from what follows it, if that begins with such
a token.  At an equality sign this holds of the errors too, which differ at most
in what they quote: where a factor is missing in front of the equality sign or
behind it, that sign is quoted in its place.
-/

namespace CanonicalEquation
namespace Group

/-! ## The group that the pass is in -/

/-- Whether the pass stands in a group, or behind one that may have further
factors. -/
def State.InGroup : State → Prop
  | outside _ => False
  | _ => True

/-- The same place with other tokens in front of the group. -/
def State.withBefore (before : List Token) : State → State
  | outside _ => outside before
  | inside _ opening group => inside before opening group
  | behind _ group factors => behind before group factors
  | multiplying _ group factors => multiplying before group factors

/-- The end of a group. -/
structure Ending where
  /-- The tokens of the group, the last one first. -/
  group : List Token
  /-- The factors behind it, the last one first. -/
  factors : List Rat
  /-- The tokens that follow. -/
  rest : List Token

/-- What the pass makes of a group that has ended, of the tokens in front of it
and of those that follow. -/
def Ending.settle
    (before : List Token)
    (ending : Ending) : Except GroupError (List Token) := do
  let settled ← finish before ending.group ending.factors
  let remaining ← openFrom (.outside []) ending.rest
  return settled ++ remaining

/-- Whether a token fails, or leads into a group, whatever tokens stand in front
of it. -/
def LeadsInGroup
    (start : List Token → State)
    (token : Token) : Prop :=
  (∃ cause, ∀ before, opener (start before) token = .error cause) ∨
    ∃ next : State, next.InGroup ∧
      ∀ before, opener (start before) token = .ok ([], next.withBefore before)

/-- Where a literal of a group leads does not depend on the tokens in front of
the group. -/
theorem leadsInGroup_of_afterLiteral
    {start : List Token → State}
    {token : Token}
    {opening : String}
    {group : List Token}
    {literal : String}
    {inner : List Char}
    (step : ∀ before, opener (start before) token =
      afterLiteral before opening group literal inner >>= fun next => .ok ([], next)) :
    LeadsInGroup start token := by
  unfold afterLiteral at step
  cases closed : closes literal inner with
  | error cause =>
      rw [closed] at step
      exact .inl ⟨cause, step⟩
  | ok isLast =>
      rw [closed] at step
      cases isLast with
      | false => exact .inr ⟨.inside [] opening group, trivial, step⟩
      | true => exact .inr ⟨.behind [] group [], trivial, step⟩

/-- A literal that begins with an opening parenthesis leads into a group. -/
theorem leadsInGroup_of_opening
    {text : String}
    {inner : List Char}
    (chars : text.toList = '(' :: inner) : LeadsInGroup .outside (.literal text) := by
  apply leadsInGroup_of_afterLiteral
  intro before
  rw [← afterOutside_opening before chars]
  rfl

/-- A token outside of groups is held back, or leads into one. -/
theorem opener_outside_cases (token : Token) :
    (∀ before, opener (.outside before) token = .ok ([], .outside (token :: before))) ∨
      LeadsInGroup .outside token := by
  cases token with
  | sign sign => exact .inl fun before => rfl
  | equals => exact .inl fun before => rfl
  | times => exact .inl fun before => rfl
  | literal text =>
      by_cases opening : ∃ inner, text.toList = '(' :: inner
      · obtain ⟨inner, chars⟩ := opening
        exact .inr (leadsInGroup_of_opening chars)
      · have step : ∀ before, opener (.outside before) (.literal text) =
            afterOutside before (.literal text) >>= fun next => .ok ([], next) := fun before => rfl
        simp only [fun before => afterOutside_literal before (not_exists.mp opening)] at step
        split at step
        · exact .inr (.inl ⟨.notTerms text, step⟩)
        · split at step
          · exact .inr (.inl ⟨.unbalanced text, step⟩)
          · exact .inl step

/-- A token of a group, or behind one, goes on with it or follows its end. -/
theorem opener_inGroup_cases
    {state : State}
    (inGroup : state.InGroup)
    (token : Token) :
    LeadsInGroup state.withBefore token ∨
      token ≠ .times ∧ ∃ group factors, ∀ before,
        state.withBefore before = .behind before group factors := by
  cases state with
  | outside held => exact inGroup.elim
  | inside held opening group =>
      left
      cases token with
      | equals => exact .inl ⟨.unbalanced opening, fun before => rfl⟩
      | sign sign => exact .inr ⟨.inside [] opening (.sign sign :: group), trivial, fun before => rfl⟩
      | times => exact .inr ⟨.inside [] opening (.times :: group), trivial, fun before => rfl⟩
      | literal text => exact leadsInGroup_of_afterLiteral fun before => rfl
  | behind held group factors =>
      by_cases factor : token = .times
      · subst factor
        exact .inl (.inr ⟨.multiplying [] group factors, trivial, fun before => rfl⟩)
      · exact .inr ⟨factor, group, factors, fun before => rfl⟩
  | multiplying held group factors =>
      left
      have step : ∀ before, opener (.multiplying before group factors) token =
          factorOf token >>= fun factor => .ok ([], .behind before group (factor :: factors)) :=
        fun before => rfl
      cases read : factorOf token with
      | error cause =>
          rw [read] at step
          exact .inl ⟨cause, step⟩
      | ok factor =>
          rw [read] at step
          exact .inr ⟨.behind [] group (factor :: factors), trivial, step⟩

theorem LeadsInGroup.exists_ending_of_goesOn
    {start : List Token → State}
    {token : Token}
    (leads : LeadsInGroup start token)
    {rest : List Token}
    (goesOn : ∀ {next : State}, next.InGroup → ∃ ending : Except GroupError Ending, ∀ before,
      openFrom (next.withBefore before) rest = ending >>= Ending.settle before) :
    ∃ ending : Except GroupError Ending, ∀ before,
      openFrom (start before) (token :: rest) = ending >>= Ending.settle before := by
  rcases leads with ⟨cause, fails⟩ | ⟨next, inGroup, step⟩
  · exact ⟨.error cause, fun before => openFrom_of_error (fails before) rest⟩
  · obtain ⟨ending, ends⟩ := goesOn inGroup
    exact ⟨ending, fun before => (openFrom_of_silent (step before) rest).trans (ends before)⟩

/-- Where the group ends that the pass is in, and whether it does, does not
depend on the tokens in front of it. -/
theorem exists_ending
    {state : State}
    (inGroup : state.InGroup)
    (tokens : List Token) :
    ∃ ending : Except GroupError Ending, ∀ before,
      openFrom (state.withBefore before) tokens = ending >>= Ending.settle before := by
  induction tokens generalizing state with
  | nil =>
      cases state with
      | outside held => exact inGroup.elim
      | inside held opening group => exact ⟨.error (.unbalanced opening), fun before => rfl⟩
      | multiplying held group factors => exact ⟨.error (.notNumber "*"), fun before => rfl⟩
      | behind held group factors =>
          exact ⟨.ok ⟨group, factors, []⟩, fun before => openFrom_behind before group factors nofun⟩
  | cons token rest inductionHypothesis =>
      rcases opener_inGroup_cases inGroup token with
        leads | ⟨noFactor, group, factors, isBehind⟩
      · exact leads.exists_ending_of_goesOn inductionHypothesis
      · refine ⟨.ok ⟨group, factors, token :: rest⟩, fun before => ?_⟩
        rw [isBehind, openFrom_behind before group factors (by simpa using noFactor)]
        rfl

/-- Where the group ends that a token leads into does not depend on the tokens
in front of it. -/
theorem LeadsInGroup.exists_ending
    {start : List Token → State}
    {token : Token}
    (leads : LeadsInGroup start token)
    (rest : List Token) :
    ∃ ending : Except GroupError Ending, ∀ before,
      openFrom (start before) (token :: rest) = ending >>= Ending.settle before :=
  leads.exists_ending_of_goesOn fun inGroup => Group.exists_ending inGroup rest

/-! ## Errors up to what they quote -/

/-- Whether two results are the same, or errors of the same kind. -/
def Agree (first second : Except GroupError α) : Prop :=
  first.mapError GroupError.kind = second.mapError GroupError.kind

theorem Agree.bind
    {first second : Except GroupError α}
    {former latter : α → Except GroupError β}
    (agree : Agree first second)
    (next : ∀ value, Agree (former value) (latter value)) :
    Agree (first >>= former) (second >>= latter) := by
  cases first with
  | error cause =>
      cases second with
      | error other => exact congrArg Except.error (Except.error.inj agree)
      | ok value => cases agree
  | ok value =>
      cases second with
      | error other => cases agree
      | ok other =>
          cases agree
          exact next value

theorem Agree.bind_right
    {first second : Except GroupError α}
    (agree : Agree first second)
    (next : α → Except GroupError β) : Agree (first >>= next) (second >>= next) :=
  agree.bind fun _ => rfl

theorem agree_ok_iff
    {result : Except GroupError α}
    {value : α} : Agree result (.ok value) ↔ result = .ok value :=
  mapError_eq_ok_iff

/-! ## Tokens that are held back below -/

/-- Whether the lead of a group ends before it comes to the tokens that are
held back below others. -/
def Divided (before base : List Token) : Prop :=
  (∃ token ∈ before, token.isSign = true ∨ token = .equals) ∨ ∀ token ∈ base.head?, token = .equals

theorem Divided.cons
    {before base : List Token}
    (divided : Divided before base)
    (token : Token) : Divided (token :: before) base :=
  divided.imp_left fun ⟨other, member, stops⟩ => ⟨other, List.mem_cons_of_mem token member, stops⟩

theorem Divided.of_factor
    {factor : Token}
    {rest base : List Token}
    (divided : Divided (.times :: factor :: rest) base)
    {value : Rat}
    (read : factorOf factor = .ok value) : Divided rest base := by
  rcases divided with ⟨token, member, stops⟩ | onlyEquals
  · left
    have notTimes : token ≠ .times := by
      rintro rfl
      rcases stops with isSign | isEquals <;> contradiction
    have notFactor : token ≠ factor := by
      rintro rfl
      cases token with
      | sign sign => cases read
      | equals => cases read
      | times => cases read
      | literal text => rcases stops with isSign | isEquals <;> contradiction
    have inRest := (List.mem_cons.mp member).resolve_left notTimes
    exact ⟨token, (List.mem_cons.mp inRest).resolve_left notFactor, stops⟩
  · exact .inr onlyEquals

/-- A lead is read in the same way with tokens held back below.  Where it comes
to their end it quotes the `*` that has no factor, and otherwise the equality
sign. -/
theorem Lead.ofTokens_append
    {before base : List Token}
    (divided : Divided before base) :
    Agree (ofTokens (before ++ base))
      (ofTokens before >>= fun lead => .ok { lead with before := lead.before ++ base }) := by
  induction before using Lead.ofTokens.induct with
  | case1 factor rest inductionHypothesis =>
      change Agree
        (factorOf factor >>= fun value => ofTokens (rest ++ base) >>= fun lead =>
          .ok { lead with factors := value :: lead.factors })
        ((factorOf factor >>= fun value => ofTokens rest >>= fun lead =>
          .ok { lead with factors := value :: lead.factors }) >>= fun lead =>
            .ok { lead with before := lead.before ++ base })
      cases read : factorOf factor with
      | error cause => rfl
      | ok value =>
          have restAgrees := (inductionHypothesis (divided.of_factor read)).bind_right fun lead =>
            .ok { lead with factors := value :: lead.factors }
          refine restAgrees.trans ?_
          cases ofTokens rest <;> rfl
  | case2 =>
      cases base with
      | nil => rfl
      | cons first others =>
          rcases divided with ⟨token, member, stops⟩ | onlyEquals
          · obtain rfl := List.mem_singleton.mp member
            rcases stops with isSign | isEquals <;> contradiction
          · obtain rfl := onlyEquals first rfl
            rfl
  | case3 sign rest => rfl
  | case4 tokens notFactor notTimes notSign =>
      have stops := stops_of_ne notFactor notTimes notSign
      rw [ofTokens_of_stops stops]
      apply agree_ok_iff.mpr
      apply ofTokens_of_stops
      cases tokens with
      | cons first rest => exact stops
      | nil =>
          intro token first
          rcases divided with ⟨other, member, _⟩ | onlyEquals
          · cases member
          · obtain rfl := onlyEquals token first
            exact ⟨nofun, rfl⟩

/-- A group is finished in the same way with tokens held back below. -/
theorem finish_append
    {before base : List Token}
    (divided : Divided before base)
    (group : List Token)
    (factors : List Rat) :
    Agree (finish (before ++ base) group factors)
      (finish before group factors >>= fun settled => .ok (base.reverse ++ settled)) := by
  have leads := (Lead.ofTokens_append divided).bind_right fun lead =>
    enclosedTerms group.reverse >>= fun enclosed =>
      .ok (lead.before.reverse ++
        replacement lead.sign (lead.factors ++ factors) group.reverse enclosed)
  refine leads.trans ?_
  rw [finish]
  generalize enclosedTerms group.reverse = content
  cases Lead.ofTokens before with
  | error cause => rfl
  | ok lead =>
      cases content with
      | error cause => rfl
      | ok terms =>
          refine congrArg Except.ok ?_
          simp only [List.reverse_append, List.append_assoc]

/-- Tokens held back below are settled in front of everything else. -/
theorem openFrom_hold
    {before base : List Token}
    (divided : Divided before base)
    (tokens : List Token) :
    Agree (openFrom (.outside (before ++ base)) tokens)
      (openFrom (.outside before) tokens >>= fun opened => .ok (base.reverse ++ opened)) := by
  induction tokens generalizing before with
  | nil => exact congrArg Except.ok (List.reverse_append ..)
  | cons token rest inductionHypothesis =>
      rcases opener_outside_cases token with stays | leads
      · rw [openFrom_of_silent (stays _), openFrom_of_silent (stays _)]
        exact inductionHypothesis (divided.cons token)
      · -- The tokens below come into play where the group is finished that the token begins.
        obtain ⟨ending, enters⟩ := leads.exists_ending rest
        rw [enters, enters]
        cases ending with
        | error cause => rfl
        | ok ending =>
            have settles :=
              (finish_append divided ending.group ending.factors).bind_right fun settled =>
                openFrom (.outside []) ending.rest >>= fun remaining =>
                  .ok (settled ++ remaining)
            refine settles.trans ?_
            change Agree _ (Ending.settle before ending >>= _)
            unfold Ending.settle
            cases finish before ending.group ending.factors with
            | error cause => rfl
            | ok settled =>
                cases openFrom (.outside []) ending.rest with
                | error cause => rfl
                | ok remaining => exact congrArg Except.ok (List.append_assoc ..)

/-! ## Pieces that follow each other -/

/-- Whether tokens begin with a sign or an equality sign, if with anything. -/
def BeginsApart (tokens : List Token) : Prop :=
  ∀ token ∈ tokens.head?, token.isSign = true ∨ token = .equals

theorem openFrom_append
    {state : State}
    {former latter : List Token}
    (apart : BeginsApart latter)
    {opened remaining : List Token}
    (formerOpens : openFrom state former = .ok opened)
    (latterOpens : openFrom (.outside []) latter = .ok remaining) :
    openFrom state (former ++ latter) = .ok (opened ++ remaining) := by
  induction former generalizing state opened with
  | nil =>
      cases state with
      | outside before =>
          cases formerOpens
          cases latter with
          | nil =>
              cases latterOpens
              exact congrArg Except.ok (List.append_nil _).symm
          | cons token rest =>
              have stops := apart token rfl
              have plain : token.hasParenthesis = false := by
                cases token with
                | literal text => rcases stops with isSign | isEquals <;> contradiction
                | sign sign => rfl
                | equals => rfl
                | times => rfl
              have divided : Divided [token] before := .inl ⟨token, List.mem_cons_self, stops⟩
              have holds := openFrom_hold divided rest
              rw [openFrom_outside [] plain] at latterOpens
              rw [latterOpens] at holds
              rw [List.nil_append, openFrom_outside before plain]
              exact agree_ok_iff.mp holds
      | inside before opening group => cases formerOpens
      | behind before group factors =>
          have noFactor : latter.head? ≠ some .times := by
            intro equal
            rcases apart .times equal with isSign | isEquals <;> contradiction
          have finished : finish before group factors = .ok opened := formerOpens
          rw [List.nil_append, openFrom_behind before group factors noFactor, finished, latterOpens]
          rfl
      | multiplying before group factors => cases formerOpens
  | cons token rest inductionHypothesis =>
      obtain ⟨settled, next, others, step, restOpens, rfl⟩ :=
        openFrom_cons_eq_ok_iff.mp formerOpens
      exact openFrom_cons_eq_ok_iff.mpr ⟨settled, next, others ++ remaining, step,
        inductionHypothesis restOpens, (List.append_assoc ..).symm⟩

/-- Tokens whose groups are complete are opened apart from what follows them,
if that begins with a sign or an equality sign. -/
theorem openAll_append
    {former latter : List Token}
    (apart : BeginsApart latter)
    {opened remaining : List Token}
    (formerOpens : openAll former = .ok opened)
    (latterOpens : openAll latter = .ok remaining) :
    openAll (former ++ latter) = .ok (opened ++ remaining) := by
  rw [openAll_eq] at formerOpens latterOpens ⊢
  exact openFrom_append apart formerOpens latterOpens

/-! ## The two sides of an equality sign -/

/-- An equality sign ends whatever stands in front of it, as the end of the
tokens would, and what follows it is opened apart. -/
theorem openFrom_equals
    (state : State)
    (latter : List Token) :
    Agree (openFrom state (.equals :: latter))
      (close state >>= fun opened => openAll latter >>= fun remaining =>
        .ok (opened ++ .equals :: remaining)) := by
  have outside : ∀ before, Agree (openFrom (.outside before) (.equals :: latter))
      (openAll latter >>= fun remaining => .ok (before.reverse ++ .equals :: remaining)) := by
    intro before
    have divided : Divided [] (.equals :: before) := .inr fun token first =>
      (Option.some.inj first).symm
    have holds := openFrom_hold divided latter
    rw [List.reverse_cons, List.nil_append] at holds
    rw [openFrom_outside before rfl, openAll_eq]
    simpa only [List.append_assoc, List.singleton_append] using holds
  cases state with
  | outside before => exact outside before
  | inside before opening group => rfl
  | multiplying before group factors => rfl
  | behind before group factors =>
      rw [openFrom_behind before group factors (by simp)]
      have same : close (.behind before group factors) = finish before group factors := rfl
      rw [same]
      refine Agree.bind rfl fun settled => ?_
      refine ((outside []).bind_right fun remaining => .ok (settled ++ remaining)).trans ?_
      cases openAll latter <;> rfl

/-- No group uses an equality sign in front of it. -/
theorem openAll_equals
    {tokens opened : List Token}
    (opens : openAll tokens = .ok opened) :
    openAll (.equals :: tokens) = .ok (.equals :: opened) := by
  have agrees := openFrom_equals (.outside []) tokens
  rw [opens] at agrees
  rw [openAll_eq]
  exact agree_ok_iff.mp agrees

/-- What stands on the two sides of an equality sign is opened apart.  If this
fails, it does so with an error of the same kind as on the left-hand side, or as
on the right-hand side if the left-hand side can be opened. -/
theorem openAll_append_equals (former latter : List Token) :
    (openAll (former ++ .equals :: latter)).mapError GroupError.kind =
      (do
        let opened ← openAll former
        let remaining ← openAll latter
        return opened ++ .equals :: remaining : Except GroupError (List Token)).mapError
          GroupError.kind := by
  have split : openAll (former ++ .equals :: latter) =
      opener.run (.outside []) former >>= fun result =>
        openFrom result.2 (.equals :: latter) >>= fun remaining => .ok (result.1 ++ remaining) :=
    (openAll_eq _).trans (openFrom_append_eq (.outside []) former _)
  rw [split, openAll]
  change Agree _ _
  cases opener.run (.outside []) former with
  | error cause => rfl
  | ok result =>
      have goesOn := (openFrom_equals result.2 latter).bind_right fun remaining =>
        .ok (result.1 ++ remaining)
      refine goesOn.trans ?_
      change Agree _ ((close result.2 >>= fun remaining => .ok (result.1 ++ remaining)) >>= _)
      cases close result.2 with
      | error cause => rfl
      | ok remaining =>
          cases openAll latter with
          | error cause => rfl
          | ok others => exact congrArg Except.ok (List.append_assoc ..).symm

end Group
end CanonicalEquation
