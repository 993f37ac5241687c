import CanonicalEquation.Proofs.Group.Front

/-!
# What leads up to a group

Possibly a sign, and then factors with a `*` behind each, lead up to a group.
Inside of another group and where a factor has to follow, no group can begin,
whatever leads up to it.  Elsewhere the pass settles some of the tokens in
front and holds back the others, and the group is replaced by the lead that it
reads off them.
-/

namespace CanonicalEquation
namespace Group

/-- The tokens that lead up to a group: possibly a sign, and factors with a `*`
behind each. -/
def approach (sign : Option Sign) (factors : List String) : List Token :=
  (sign.map Token.sign).toList ++ factors.flatMap fun text => [.literal text, .times]

theorem approach_cons
    (text : String)
    (rest : List String) :
    approach none (text :: rest) = .literal text :: .times :: approach none rest := rfl

theorem approach_sign
    (sign : Sign)
    (factors : List String) :
    approach (some sign) factors = .sign sign :: approach none factors := rfl

theorem head?_approach
    (sign : Option Sign)
    (factors : List String)
    (opening : String)
    (after : List Token) :
    (approach sign factors ++ .literal opening :: after).head? ≠ some .times := by
  cases sign with
  | some sign => nofun
  | none =>
      cases factors with
      | nil => nofun
      | cons text rest => nofun

theorem plain_approach
    (sign : Option Sign)
    {factors : List String}
    (plain : ∀ text ∈ factors, (Token.literal text).hasParenthesis = false) :
    ∀ token ∈ approach sign factors, token.hasParenthesis = false := by
  intro token member
  rcases List.mem_append.mp member with inSign | inFactors
  · obtain ⟨mark, _, rfl⟩ := List.mem_map.mp (Option.toList_map .. ▸ inSign)
    rfl
  · obtain ⟨text, inTexts, inPair⟩ := List.mem_flatMap.mp inFactors
    rcases List.mem_cons.mp inPair with rfl | isTimes
    · exact plain text inTexts
    · obtain rfl := List.mem_singleton.mp isTimes
      rfl

/-! ## Where no group can begin -/

/-- The states in which no group can begin. -/
inductive State.Busy : State → Prop
  /-- In another group. -/
  | inside
      (before : List Token)
      (opening : String)
      (group : List Token) : Busy (.inside before opening group)
  /-- Where a factor has to follow. -/
  | multiplying
      (before group : List Token)
      (factors : List Rat) : Busy (.multiplying before group factors)

theorem factorOf_opening
    {opening : String}
    {inner : List Char}
    (chars : opening.toList = '(' :: inner) :
    factorOf (.literal opening) = .error (.notNumber opening) := by
  have none : Decimal.ofText? opening = none := by
    rw [Decimal.ofText?, chars]
    rfl
  simp only [factorOf, none]

/-- A group must not begin in another one. -/
theorem openFrom_inside_opening
    {opening : String}
    {inner : List Char}
    (chars : opening.toList = '(' :: inner)
    (before : List Token)
    (outer : String)
    (group rest : List Token) :
    openFrom (.inside before outer group) (.literal opening :: rest) = .error (.nested opening) := by
  have nested : closes opening opening.toList = .error (.nested opening) := by
    rw [closes, chars]
    rfl
  apply openFrom_of_error
  change afterLiteral before outer (.literal opening :: group) opening opening.toList >>= _ = _
  rw [afterLiteral, nested]
  rfl

/-- A group is no factor. -/
theorem openFrom_multiplying_opening
    {opening : String}
    {inner : List Char}
    (chars : opening.toList = '(' :: inner)
    (before group : List Token)
    (factors : List Rat)
    (rest : List Token) :
    openFrom (.multiplying before group factors) (.literal opening :: rest) =
      .error (.notNumber opening) := by
  rw [openFrom_multiplying, factorOf_opening chars]
  rfl

theorem toOption_openFrom_of_error
    {state : State}
    {token : Token}
    {error : GroupError}
    (failed : opener state token = .error error)
    (rest : List Token) : (openFrom state (token :: rest)).toOption = none := by
  rw [openFrom_of_error failed]
  rfl

/-- Behind a literal of a group and a `*`, no group can begin. -/
theorem exists_busy_of_afterLiteral
    {before : List Token}
    {opening : String}
    {group : List Token}
    {literal : String}
    {inner : List Char}
    {next : State}
    (step : afterLiteral before opening group literal inner = .ok next) :
    ∃ later, State.Busy later ∧ ∀ rest, openFrom next (.times :: rest) = openFrom later rest := by
  rcases afterLiteral_cases step with ⟨_, rfl⟩ | ⟨_, rfl⟩
  · exact ⟨_, .inside before opening (.times :: group), openFrom_of_silent rfl⟩
  · exact ⟨_, .multiplying before group [], openFrom_of_silent rfl⟩

section Openings

variable {opening : String}
variable {inner : List Char}

/-- No group can begin in such a state, whatever factors lead up to it. -/
theorem State.Busy.fails_of_unsigned
    {state : State}
    (busy : state.Busy)
    (chars : opening.toList = '(' :: inner)
    (factors : List String)
    (after : List Token) :
    (openFrom state (approach none factors ++ .literal opening :: after)).toOption = none := by
  induction factors generalizing state with
  | nil =>
      cases busy with
      | inside before outer group =>
          exact congrArg Except.toOption (openFrom_inside_opening chars before outer group after)
      | multiplying before group factors =>
          exact congrArg Except.toOption
            (openFrom_multiplying_opening chars before group factors after)
  | cons text rest inductionHypothesis =>
      -- The factor is a literal of the other group or a factor of it, and the `*` behind it leads
      -- to such a state again.
      rw [approach_cons, List.cons_append, List.cons_append]
      cases step : opener state (.literal text) with
      | error error => exact toOption_openFrom_of_error step _
      | ok result =>
          obtain ⟨settled, next⟩ := result
          have taken := step_of_opener step
          cases busy with
          | inside before outer group =>
              cases taken with
              | inside notEquals notLiteral => exact absurd rfl (notLiteral text)
              | literal inside =>
                  obtain ⟨later, laterBusy, same⟩ := exists_busy_of_afterLiteral inside
                  rw [openFrom_of_silent step, same]
                  exact inductionHypothesis laterBusy
          | multiplying before group factors =>
              cases taken with
              | factor read =>
                  rw [openFrom_of_silent step, openFrom_behind_times]
                  exact inductionHypothesis (.multiplying _ _ _)

theorem State.Busy.fails
    {state : State}
    (busy : state.Busy)
    (chars : opening.toList = '(' :: inner)
    (sign : Option Sign)
    (factors : List String)
    (after : List Token) :
    (openFrom state (approach sign factors ++ .literal opening :: after)).toOption = none := by
  cases sign with
  | none => exact busy.fails_of_unsigned chars factors after
  | some sign =>
      rw [approach_sign, List.cons_append]
      cases busy with
      | inside before outer group =>
          have step : opener (.inside before outer group) (.sign sign) =
              .ok ([], .inside before outer (.sign sign :: group)) := rfl
          rw [openFrom_of_silent step]
          exact (State.Busy.inside _ _ _).fails_of_unsigned chars factors after
      | multiplying before group values => exact toOption_openFrom_of_error rfl _

/-- A group that stands where a factor should leaves the next one without. -/
theorem toOption_openFrom_outside
    (chars : opening.toList = '(' :: inner)
    {factors : List String}
    (grouped : ∃ text ∈ factors, (Token.literal text).hasParenthesis = true)
    (sign : Option Sign)
    (held after : List Token) :
    (openFrom (.outside held) (approach sign factors ++ .literal opening :: after)).toOption =
      none := by
  have unsigned : ∀ held, (openFrom (.outside held)
      (approach none factors ++ .literal opening :: after)).toOption = none := by
    induction factors with
    | nil => exact absurd grouped (by simp)
    | cons text rest inductionHypothesis =>
        intro held
        rw [approach_cons, List.cons_append, List.cons_append]
        cases step : opener (.outside held) (.literal text) with
        | error error => exact toOption_openFrom_of_error step _
        | ok result =>
            obtain ⟨settled, next⟩ := result
            cases step_of_opener step with
            | outside outside =>
                rw [openFrom_of_silent step]
                rcases afterOutside_cases outside with ⟨plain, rfl⟩ | ⟨_, _, _, _, opens⟩
                · rw [openFrom_outside _ rfl]
                  have restGrouped : ∃ text ∈ rest, (Token.literal text).hasParenthesis = true := by
                    simpa [plain] using grouped
                  exact inductionHypothesis restGrouped _
                · obtain ⟨later, busy, same⟩ := exists_busy_of_afterLiteral opens
                  rw [same]
                  exact busy.fails_of_unsigned chars rest after
  cases sign with
  | none => exact unsigned held
  | some sign =>
      rw [approach_sign, List.cons_append, openFrom_outside held rfl]
      exact unsigned _

/-- What the pass makes of an equation up to a group depends on what leads up to
the group only through the tokens that it holds back in front of that. -/
theorem openAll_approach
    {before : List Token}
    (areWords : ∀ token ∈ before, token.IsWord)
    (chars : opening.toList = '(' :: inner) :
    (∀ sign factors after,
        (openAll (before ++ (approach sign factors ++ .literal opening :: after))).toOption =
          none) ∨
      ∃ settled held, Front before settled held ∧ ∀ sign factors after,
        openAll (before ++ (approach sign factors ++ .literal opening :: after)) =
          openFrom (.outside held) (approach sign factors ++ .literal opening :: after) >>=
            fun remaining => .ok (settled ++ remaining) := by
  simp only [openAll_eq, openFrom_append_eq (.outside []) before]
  cases run : opener.run (.outside []) before with
  | error error => exact .inl fun _ _ _ => rfl
  | ok result =>
      obtain ⟨settled, state⟩ := result
      cases state with
      | outside held => exact .inr ⟨settled, held, front_of_run areWords run, fun _ _ _ => rfl⟩
      | inside held outer group =>
          exact .inl fun sign factors after => toOption_bind_of_none
            ((State.Busy.inside held outer group).fails chars sign factors after) _
      | multiplying held group values =>
          exact .inl fun sign factors after => toOption_bind_of_none
            ((State.Busy.multiplying held group values).fails chars sign factors after) _
      | behind held group values =>
          -- The group in front is finished, since no `*` follows it.
          cases finished : finish held group values with
          | error error =>
              left
              intro sign factors after
              change (openFrom (.behind held group values) _ >>= _).toOption = none
              rw [openFrom_behind _ _ _ (head?_approach sign factors opening after), finished]
              rfl
          | ok more =>
              refine .inr ⟨settled ++ more, [], front_of_finish areWords run finished, ?_⟩
              intro sign factors after
              exact openFrom_behind_of_finish finished
                (head?_approach sign factors opening after) settled

/-- If no group is written, the equation cannot be opened. -/
theorem toOption_openAll_of_not_written
    {before after : List Token}
    (areWords : ∀ token ∈ before ++ .literal opening :: after, token.IsWord)
    (chars : opening.toList = '(' :: inner)
    (notWritten : ¬∃ (enclosure : Enclosure) (rest : List Token),
      enclosure.WellFormed ∧ .literal opening :: after = enclosure.tokens ++ rest)
    (sign : Option Sign)
    (factors : List String) :
    (openAll (before ++ (approach sign factors ++ .literal opening :: after))).toOption = none := by
  obtain ⟨beforeWords, afterWords⟩ := List.forall_mem_append.mp areWords
  rcases openAll_approach beforeWords chars with fails | ⟨settled, held, _, opens⟩
  · exact fails sign factors after
  · rw [opens]
    apply toOption_bind_of_none
    by_cases grouped : ∃ text ∈ factors, (Token.literal text).hasParenthesis = true
    · exact toOption_openFrom_outside chars grouped sign held after
    · have plain : ∀ text ∈ factors, (Token.literal text).hasParenthesis = false := by
        simpa using grouped
      rw [openFrom_outside_append held (plain_approach sign plain)]
      cases opened : openFrom (.outside ((approach sign factors).reverse ++ held))
          (.literal opening :: after) with
      | error error => rfl
      | ok tokens => exact absurd (Enclosure.exists_of_openFrom chars afterWords opened) notWritten

end Openings

/-! ## What the lead of a group is -/

/-- The numbers that a factor can be. -/
def IsFactor (value : Rat) : Prop :=
  ∃ token, factorOf token = .ok value

theorem IsFactor.isFinite
    {value : Rat}
    (isFactor : IsFactor value) : Decimal.IsFinite value := by
  obtain ⟨_, read⟩ := isFactor
  exact isFinite_factorOf read

theorem IsFactor.nonneg
    {value : Rat}
    (isFactor : IsFactor value) : 0 ≤ value := by
  obtain ⟨_, read⟩ := isFactor
  obtain ⟨numeral, _, _, rfl⟩ := exists_numeral_of_factorOf read
  exact numeral.value_nonneg

/-- The numbers of factors, from the last one to the first. -/
def factorValues (factors : List String) : Except GroupError (List Rat) :=
  factors.reverse.mapM fun text => factorOf (.literal text)

theorem forall₂_of_factorValues
    {factors : List String}
    {values : List Rat}
    (read : factorValues factors = .ok values) :
    List.Forall₂ (fun text value => factorOf (.literal text) = .ok value)
      factors.reverse values := by
  unfold factorValues at read
  generalize factors.reverse = outwards at read ⊢
  induction outwards generalizing values with
  | nil =>
      cases read
      exact .nil
  | cons text rest inductionHypothesis =>
      rw [List.mapM_cons] at read
      obtain ⟨value, valueRead, read⟩ := bind_eq_ok_iff.mp read
      obtain ⟨others, othersRead, equal⟩ := bind_eq_ok_iff.mp read
      cases equal
      exact .cons valueRead (inductionHypothesis othersRead)

theorem isFactor_of_factorValues
    {factors : List String}
    {values : List Rat}
    (read : factorValues factors = .ok values) : ∀ value ∈ values, IsFactor value := by
  replace read := forall₂_of_factorValues read
  generalize factors.reverse = outwards at read
  induction read with
  | nil => exact List.forall_mem_nil _
  | cons valueRead _ inductionHypothesis =>
      exact List.forall_mem_cons.mpr ⟨⟨_, valueRead⟩, inductionHypothesis⟩

theorem factorValues_eq_nil_iff
    {factors : List String}
    {values : List Rat}
    (read : factorValues factors = .ok values) : values = [] ↔ factors = [] := by
  rw [← List.length_eq_zero_iff, ← (forall₂_of_factorValues read).length_eq, List.length_reverse,
    List.length_eq_zero_iff]

/-- Factors are read off the tokens in front of a group before anything else. -/
theorem Lead.ofTokens_approach
    (factors : List String)
    (held : List Token) :
    ofTokens ((approach none factors).reverse ++ held) =
      factorValues factors >>= fun values => ofTokens held >>= fun lead =>
        .ok { lead with factors := values ++ lead.factors } := by
  -- The lead is read from the group outwards, so the last factor comes first.
  induction factors using List.reverseRecOn with
  | nil =>
      change ofTokens held = ofTokens held >>= fun lead => .ok lead
      cases ofTokens held <;> rfl
  | append_singleton init last inductionHypothesis =>
      have tokens : (approach none (init ++ [last])).reverse ++ held =
          .times :: .literal last :: ((approach none init).reverse ++ held) := by
        simp [approach]
      have values : factorValues (init ++ [last]) =
          factorOf (.literal last) >>= fun value => factorValues init >>= fun others =>
            .ok (value :: others) := by
        rw [factorValues, List.reverse_append, List.reverse_singleton, List.singleton_append,
          List.mapM_cons]
        rfl
      rw [tokens, values, ofTokens, inductionHypothesis]
      cases factorOf (.literal last) with
      | error error => rfl
      | ok value =>
          cases factorValues init with
          | error error => rfl
          | ok others => cases ofTokens held <;> rfl

/-! ## What a group is replaced by -/

/-- The factors that follow a group do not depend on what stands in front of
it. -/
theorem exists_factors
    (group : List Token)
    (factors : List Rat)
    (rest : List Token) :
    (∀ before, (openFrom (.behind before group factors) rest).toOption = none) ∨
      ∃ more behind, (more = [] ↔ rest.head? ≠ some .times) ∧ (∀ value ∈ more, IsFactor value) ∧
        behind.head? ≠ some .times ∧
        ∀ before, openFrom (.behind before group factors) rest =
          openFrom (.behind before group (more ++ factors)) behind := by
  -- The pass takes a `*` and its factor together.
  induction rest using List.twoStepInduction generalizing factors with
  | nil => exact .inr ⟨[], [], by simp, List.forall_mem_nil _, by simp, fun before => rfl⟩
  | singleton token =>
      by_cases factor : token = .times
      · subst factor
        exact .inl fun before => rfl
      · exact .inr ⟨[], [token], by simp [factor], List.forall_mem_nil _, by simp [factor],
          fun before => rfl⟩
  | cons_cons token next rest behindNext behindToken =>
      by_cases factor : token = .times
      · subst factor
        cases read : factorOf next with
        | error error =>
            left
            intro before
            rw [openFrom_behind_times, openFrom_multiplying, read]
            rfl
        | ok value =>
            have step : ∀ before, openFrom (.behind before group factors) (.times :: next :: rest) =
                openFrom (.behind before group (value :: factors)) rest := by
              intro before
              rw [openFrom_behind_times, openFrom_multiplying, read]
              rfl
            rcases behindNext (value :: factors) with
              fails | ⟨more, behind, _, areFactors, noFactor, opens⟩
            · left
              intro before
              rw [step before]
              exact fails before
            · refine .inr ⟨more ++ [value], behind, by simp, ?_, noFactor, fun before => ?_⟩
              · exact List.forall_mem_append.mpr
                  ⟨areFactors, List.forall_mem_singleton.mpr ⟨next, read⟩⟩
              · rw [step before, opens before, List.append_assoc, List.singleton_append]
      · exact .inr ⟨[], token :: next :: rest, by simp [factor], List.forall_mem_nil _,
          by simp [factor], fun before => rfl⟩

/-- A group cannot be opened with what follows it, or what it is opened to
depends on the tokens in front through their lead only. -/
theorem openFrom_enclosure
    {enclosure : Enclosure}
    (wellFormed : enclosure.WellFormed)
    (rest : List Token) :
    (∀ held, (openFrom (.outside held) (enclosure.tokens ++ rest)).toOption = none) ∨
      ∃ terms more remaining, enclosedTerms enclosure.tokens = .ok terms ∧
        (more = [] ↔ rest.head? ≠ some .times) ∧ (∀ value ∈ more, IsFactor value) ∧
        ∀ held, openFrom (.outside held) (enclosure.tokens ++ rest) =
          Lead.ofTokens held >>= fun lead =>
            .ok (lead.before.reverse ++
              (replacement lead.sign (lead.factors ++ more) enclosure.tokens terms ++
                remaining)) := by
  rcases exists_factors enclosure.tokens.reverse [] rest with
    fails | ⟨more, behind, noMore, areFactors, noFactor, opens⟩
  · left
    intro held
    rw [Enclosure.openFrom_tokens wellFormed.closed]
    exact fails held
  · have finished : ∀ held, openFrom (.outside held) (enclosure.tokens ++ rest) =
        (Lead.ofTokens held >>= fun lead => enclosedTerms enclosure.tokens >>= fun terms =>
          .ok (lead.before.reverse ++
            replacement lead.sign (lead.factors ++ more) enclosure.tokens terms)) >>=
          fun settled => openFrom (.outside []) behind >>= fun remaining =>
            .ok (settled ++ remaining) := by
      intro held
      rw [Enclosure.openFrom_tokens wellFormed.closed, opens held, List.append_nil,
        openFrom_behind _ _ _ noFactor, finish, List.reverse_reverse]
      rfl
    cases encloses : enclosedTerms enclosure.tokens with
    | error error =>
        left
        intro held
        rw [finished held, encloses]
        cases Lead.ofTokens held <;> rfl
    | ok terms =>
        cases restOpens : openFrom (.outside []) behind with
        | error error =>
            left
            intro held
            rw [finished held, encloses, restOpens]
            cases Lead.ofTokens held <;> rfl
        | ok remaining =>
            refine .inr ⟨terms, more, remaining, rfl, noMore, areFactors, fun held => ?_⟩
            rw [finished held, encloses, restOpens]
            cases Lead.ofTokens held with
            | error error => rfl
            | ok lead => exact congrArg Except.ok (List.append_assoc ..)

/-! ## Behind a literal -/

/-- A literal in front of a group ends a part of the equation, and no lead
reaches it. -/
theorem Front.exists_part
    {before settled held : List Token}
    (front : Front before settled held)
    {text : String}
    (last : before.getLast? = some (.literal text)) :
    ∃ former latter, settled ++ held.reverse = former ++ latter ∧ Equation.IsPart latter ∧
      Lead.ofTokens held = .ok ⟨[], none, held⟩ := by
  cases front with
  | start empty =>
      rw [empty] at last
      cases last
  | group former _ isPart =>
      exact ⟨former, _, by rw [List.reverse_nil, List.append_nil], isPart, rfl⟩
  | @held _ token others lastToken plain equals =>
      obtain rfl := Option.some.inj (lastToken.symm.trans last)
      refine ⟨settled ++ others.reverse, [.literal text], ?_, Equation.isPart_literal plain, rfl⟩
      rw [List.reverse_cons, ← List.append_assoc]

/-- In front of tokens that no lead reaches, the lead of a group is what leads up
to it. -/
theorem Lead.ofTokens_approach_of_stops
    {held : List Token}
    (stops : ofTokens held = .ok ⟨[], none, held⟩)
    (sign : Option Sign)
    (factors : List String) :
    ofTokens ((approach sign factors).reverse ++ held) =
      factorValues factors >>= fun values => .ok ⟨values, sign, held⟩ := by
  cases sign with
  | none =>
      rw [ofTokens_approach, stops]
      cases factorValues factors with
      | error error => rfl
      | ok values =>
          change Except.ok (⟨values ++ [], none, held⟩ : Lead) = .ok ⟨values, none, held⟩
          rw [List.append_nil]
  | some sign =>
      rw [approach_sign, List.reverse_cons, List.append_assoc, List.singleton_append,
        ofTokens_approach]
      cases factorValues factors with
      | error error => rfl
      | ok values =>
          change Except.ok (⟨values ++ [], some sign, held⟩ : Lead) = .ok ⟨values, some sign, held⟩
          rw [List.append_nil]

/-- Behind a literal, a group with what leads up to it cannot be opened, or is
replaced by its own lead behind a part of the equation. -/
theorem openAll_behind_literal
    {before : List Token}
    (areWords : ∀ token ∈ before, token.IsWord)
    {text : String}
    (last : before.getLast? = some (.literal text))
    (factors : List String)
    {enclosure : Enclosure}
    (wellFormed : enclosure.WellFormed)
    (rest : List Token) :
    (∀ sign, (openAll (before ++
        (approach sign factors ++ (enclosure.tokens ++ rest)))).toOption = none) ∨
      ∃ former latter values terms remaining, Equation.IsPart latter ∧
        enclosedTerms enclosure.tokens = .ok terms ∧ (∀ value ∈ values, IsFactor value) ∧
        (values = [] ↔ factors = [] ∧ rest.head? ≠ some .times) ∧
        ∀ sign, openAll (before ++ (approach sign factors ++ (enclosure.tokens ++ rest))) =
          .ok ((former ++ latter) ++
            (replacement sign values enclosure.tokens terms ++ remaining)) := by
  obtain ⟨opening, inner, others, chars, tokens⟩ := enclosure.exists_literal
  have begins : enclosure.tokens ++ rest = .literal opening :: (others ++ rest) := by
    rw [tokens, List.cons_append]
  rcases openAll_approach areWords chars with fails | ⟨settled, held, front, opens⟩
  · left
    intro sign
    rw [begins]
    exact fails sign factors (others ++ rest)
  · obtain ⟨former, latter, split, isPart, stops⟩ := front.exists_part last
    by_cases grouped : ∃ text ∈ factors, (Token.literal text).hasParenthesis = true
    · left
      intro sign
      rw [begins, opens]
      exact toOption_bind_of_none (toOption_openFrom_outside chars grouped sign held _) _
    · have plain : ∀ text ∈ factors, (Token.literal text).hasParenthesis = false := by
        simpa using grouped
      have opensBehind : ∀ sign,
          openAll (before ++ (approach sign factors ++ (enclosure.tokens ++ rest))) =
            openFrom (.outside ((approach sign factors).reverse ++ held))
              (enclosure.tokens ++ rest) >>= fun remaining => .ok (settled ++ remaining) := by
        intro sign
        rw [← openFrom_outside_append held (plain_approach sign plain), begins]
        exact opens sign factors (others ++ rest)
      rcases openFrom_enclosure wellFormed rest with
        fails | ⟨terms, more, remaining, encloses, noMore, areFactors, replaces⟩
      · left
        intro sign
        rw [opensBehind]
        exact toOption_bind_of_none (fails _) _
      · cases read : factorValues factors with
        | error error =>
            left
            intro sign
            rw [opensBehind, replaces, Lead.ofTokens_approach_of_stops stops, read]
            rfl
        | ok values =>
            refine .inr ⟨former, latter, values ++ more, terms, remaining, isPart, encloses,
              List.forall_mem_append.mpr ⟨isFactor_of_factorValues read, areFactors⟩, ?_, ?_⟩
            · rw [List.append_eq_nil_iff, factorValues_eq_nil_iff read, noMore]
            · intro sign
              rw [opensBehind, replaces, Lead.ofTokens_approach_of_stops stops, read, ← split,
                List.append_assoc]
              rfl

end Group
end CanonicalEquation
