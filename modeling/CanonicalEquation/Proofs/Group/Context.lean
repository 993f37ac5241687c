import CanonicalEquation.Proofs.Equation.Rendering
import CanonicalEquation.Proofs.Group.Approach

/-!
# A group among other tokens

A group is opened with its own sign and its own factors, whatever else is
opened in front of it and behind it.  The tokens in front must not end in a
sign or a `*`, and those behind must not begin with a `*`, since these would
belong to the group.
-/

namespace CanonicalEquation
namespace Group

/-! ## Factors as they are written -/

/-- The tokens of factors behind a group, each with a `*` in front. -/
def trail (factors : List String) : List Token :=
  factors.flatMap fun text => [.times, .literal text]

/-- Whether texts are read as numbers, one by one. -/
def AreFactors (factors : List String) (values : List Rat) : Prop :=
  List.Forall₂ (fun text value => Decimal.ofText? text = some value) factors values

theorem AreFactors.exists_numerals
    {factors : List String}
    {values : List Rat}
    (areFactors : AreFactors factors values) :
    ∃ numerals : List Numeral, (∀ numeral ∈ numerals, numeral.WellFormed) ∧
      factors = numerals.map (fun numeral => String.ofList numeral.chars) ∧
      values = valuesOf numerals := by
  induction areFactors with
  | nil => exact ⟨[], List.forall_mem_nil _, rfl, rfl⟩
  | @cons text value others otherValues read _ inductionHypothesis =>
      obtain ⟨numerals, wellFormed, rfl, rfl⟩ := inductionHypothesis
      have factorRead : factorOf (.literal text) = .ok value := by
        rw [factorOf, read]
      obtain ⟨numeral, numeralWellFormed, isText, rfl⟩ := exists_numeral_of_factorOf factorRead
      cases isText
      exact ⟨numeral :: numerals, List.forall_mem_cons.mpr ⟨numeralWellFormed, wellFormed⟩, rfl,
        rfl⟩

theorem AreFactors.eq_nil_iff
    {factors : List String}
    {values : List Rat}
    (areFactors : AreFactors factors values) : values = [] ↔ factors = [] := by
  rw [← List.length_eq_zero_iff, ← areFactors.length_eq, List.length_eq_zero_iff]

theorem approach_map
    (sign : Option Sign)
    (numerals : List Numeral) :
    approach sign (numerals.map fun numeral => String.ofList numeral.chars) =
      (sign.map Token.sign).toList ++ leadTokens numerals := by
  rw [approach, List.flatMap_map, leadTokens]

theorem trail_map (numerals : List Numeral) :
    trail (numerals.map fun numeral => String.ofList numeral.chars) = factorTokens numerals := by
  rw [trail, List.flatMap_map, factorTokens]

/-! ## Multiplied terms among other tokens -/

/-- What stands in place of a group that factors or a `-` multiply. -/
structure Distributed
    (sign : Option Sign)
    (factor : Rat)
    (terms : List Term)
    (body : List Token) : Prop where
  /-- No parentheses and no `*` are left. -/
  plain : ∀ token ∈ body, ∀ c ∈ token.text.toList, c ≠ '(' ∧ c ≠ ')' ∧ c ≠ '*'
  /-- It is read as one term for each term of the group, with the same key and
  the multiplied value.  It begins with a sign if one stood in front of the
  factors, or if the first term needs a `-`. -/
  reads : ∃ multiplied, Side.terms body = .ok multiplied ∧
    multiplied.map Term.key = terms.map Term.key ∧
    multiplied.map Term.value =
      terms.map (fun term => (sign.getD .plus).apply (factor * term.value)) ∧
    (body.head?.any Token.isSign = true ↔
      sign.isSome = true ∨ ∃ first ∈ multiplied.head?, first.sign = .minus)

theorem eq_of_not_begins
    {signed : Bool}
    {term : Term}
    (begins : ¬(signed = true ∨ term.sign = .minus)) : signed = false ∧ term.sign = .plus := by
  obtain ⟨unsigned, notMinus⟩ := not_or.mp begins
  refine ⟨Bool.eq_false_iff.mpr unsigned, ?_⟩
  cases sign : term.sign with
  | plus => rfl
  | minus => exact absurd sign notMinus

/-- The tokens of terms are read as a side of these terms. -/
theorem terms_termTokens
    (signed : Bool)
    {first : Term}
    {rest : List Term}
    (wellFormed : ∀ term ∈ first :: rest, term.WellFormed) :
    Side.terms (termTokens signed (first :: rest)) = .ok ((first :: rest).map Term.reread) := by
  obtain ⟨firstWellFormed, restWellFormed⟩ := List.forall_mem_cons.mp wellFormed
  refine Side.terms_eq_ok_iff.mpr ⟨.afterTerm, ?_, rfl⟩
  by_cases begins : signed = true ∨ first.sign = .minus
  · have reads := Equation.read?_flatMap_followingTokens wellFormed
    rw [List.flatMap_cons, followingTokens, List.cons_append, Side.read?_sign] at reads
    rw [termTokens, leadingTokens_of_sign begins, followingTokens, List.cons_append,
      Side.read?_sign]
    exact reads
  · obtain ⟨rfl, positive⟩ := eq_of_not_begins begins
    have reads := Side.read?_written Side.Reading.start_ne_afterTerm none
      (Term.wellFormed_monomial firstWellFormed).1 (rest.flatMap followingTokens)
    rw [termTokens, leadingTokens_of_literal positive, Term.unsignedText_eq firstWellFormed]
    refine reads.trans ?_
    rw [Equation.read?_flatMap_followingTokens restWellFormed, Option.map_some, List.map_cons,
      Term.reread, positive]
    rfl

theorem isSign_head?_termTokens
    (signed : Bool)
    (first : Term)
    (rest : List Term) :
    (termTokens signed (first :: rest)).head?.any Token.isSign = true ↔
      signed = true ∨ first.sign = .minus := by
  by_cases begins : signed = true ∨ first.sign = .minus
  · rw [termTokens, leadingTokens_of_sign begins]
    exact iff_of_true rfl begins
  · obtain ⟨rfl, positive⟩ := eq_of_not_begins begins
    rw [termTokens, leadingTokens_of_literal positive]
    exact iff_of_false Bool.false_ne_true begins

theorem plain_of_mem_termTokens
    {signed : Bool}
    {terms : List Term}
    (wellFormed : ∀ term ∈ terms, term.WellFormed)
    {token : Token}
    (member : token ∈ termTokens signed terms) :
    ∀ c ∈ token.text.toList, c ≠ '(' ∧ c ≠ ')' ∧ c ≠ '*' := by
  intro c inText
  rcases eq_of_mem_termTokens member with ⟨sign, rfl⟩ | ⟨term, inTerms, rfl⟩
  · have isSign : c = sign.char := by
      simpa [Sign.text] using inText
    cases sign <;> (subst isSign; decide)
  · rw [Token.text_literal, Term.unsignedText_eq (wellFormed term inTerms),
      String.toList_ofList] at inText
    have occurs := Monomial.occurs_of_mem_chars
      (Term.wellFormed_monomial (wellFormed term inTerms)).1 inText
    refine ⟨?_, ?_, ?_⟩ <;> (rintro rfl; exact absurd occurs (by decide))

/-- A multiplied term is read with its key and the multiplied value. -/
theorem reread_multiply
    (sign : Option Sign)
    {factor : Rat}
    (finite : Decimal.IsFinite factor)
    {term : Term}
    (wellFormed : term.WellFormed) :
    (multiply sign factor term).reread.key = term.key ∧
      (multiply sign factor term).reread.value =
        (sign.getD .plus).apply (factor * term.value) := by
  obtain ⟨key, value⟩ := Term.reread_eq (wellFormed_multiply sign finite wellFormed)
  exact ⟨key.trans (key_multiply sign factor term), value.trans (value_multiply sign factor term)⟩

/-- The tokens of multiplied terms are what stands in place of a group. -/
theorem distributed_termTokens
    (sign : Option Sign)
    {factor : Rat}
    (finite : Decimal.IsFinite factor)
    {terms : List Term}
    (nonempty : terms ≠ [])
    (wellFormed : ∀ term ∈ terms, term.WellFormed) :
    Distributed sign factor terms
      (termTokens sign.isSome (terms.map (multiply sign factor))) := by
  have multipliedWellFormed : ∀ term ∈ terms.map (multiply sign factor), term.WellFormed :=
    List.forall_mem_map.mpr fun term member =>
      wellFormed_multiply sign finite (wellFormed term member)
  obtain ⟨first, rest, rfl⟩ := List.exists_cons_of_ne_nil nonempty
  refine ⟨fun token => plain_of_mem_termTokens multipliedWellFormed,
    _, terms_termTokens sign.isSome multipliedWellFormed, ?_, ?_, ?_⟩
  · rw [← List.map_cons, List.map_map, List.map_map]
    exact List.map_congr_left fun term member =>
      (reread_multiply sign finite (wellFormed term member)).1
  · rw [← List.map_cons, List.map_map, List.map_map]
    exact List.map_congr_left fun term member =>
      (reread_multiply sign finite (wellFormed term member)).2
  · rw [List.map_cons, isSign_head?_termTokens, List.map_cons, List.head?_cons]
    simp [Term.reread]

/-! ## The tokens in front -/

/-- What the pass makes of tokens that do not end in a sign or a `*` is settled
in front of what follows them, if that is no `*`. -/
theorem exists_held_of_openAll
    {former opened : List Token}
    (opens : openAll former = .ok opened)
    (ends : ∀ token ∈ former.getLast?, token ≠ .times ∧ token.isSign = false) :
    ∃ settled held, Lead.Stops held ∧ settled ++ held.reverse = opened ∧
      ∀ rest, rest.head? ≠ some .times →
        openAll (former ++ rest) =
          openFrom (.outside held) rest >>= fun remaining => .ok (settled ++ remaining) := by
  have split : ∀ rest, openAll (former ++ rest) =
      opener.run (.outside []) former >>= fun result =>
        openFrom result.2 rest >>= fun remaining => .ok (result.1 ++ remaining) := fun rest =>
    (openAll_eq _).trans (openFrom_append_eq (.outside []) former rest)
  have alone := split []
  rw [List.append_nil, opens] at alone
  obtain ⟨⟨settled, state⟩, run, goesOn⟩ := bind_eq_ok_iff.mp alone.symm
  obtain ⟨remaining, closes, equal⟩ := bind_eq_ok_iff.mp goesOn
  cases equal
  rw [run] at split
  cases state with
  | outside held =>
      cases closes
      have last : held.head? = former.getLast? := endsWith_of_run run
      have stops : Lead.Stops held := by
        rw [Lead.Stops, last]
        exact ends
      exact ⟨settled, held, stops, rfl, fun rest _ => split rest⟩
  | inside before opening group => cases closes
  | behind before group factors =>
      -- The last group in front is finished, since no other factor follows it.
      have finished : finish before group factors = .ok remaining := closes
      refine ⟨settled ++ remaining, [], nofun, List.append_nil _, fun rest noFactor => ?_⟩
      exact (split rest).trans (openFrom_behind_of_finish finished noFactor settled)
  | multiplying before group factors => cases closes

/-! ## The group -/

theorem Lead.ofTokens_sign
    {held : List Token}
    (stops : Stops held)
    (sign : Option Sign) :
    ofTokens ((sign.map Token.sign).toList ++ held) = .ok ⟨[], sign, held⟩ := by
  cases sign with
  | none => exact ofTokens_of_stops stops
  | some mark => rfl

theorem enclosedTerms_of_readSequence
    {group : List Token}
    {terms : List Term}
    (reads : Term.readSequence (enclosedText group) = .ok terms) :
    enclosedTerms group = .ok terms ∧ Term.sequence? (enclosedText group).toList = some terms := by
  have sequence := Term.readSequence_eq_ok_iff.mp reads
  refine ⟨Enclosure.enclosedTerms_eq_ok_iff_sequence.mpr ⟨?_, sequence⟩, sequence⟩
  by_contra empty
  rw [Bool.not_eq_false, String.isEmpty_iff] at empty
  rw [empty] at sequence
  cases sequence

section Surrounded

variable {enclosure : Enclosure}
variable {terms : List Term}
variable {leading trailing : List String}
variable {leadingValues trailingValues : List Rat}

/-- A group with its own sign and factors is replaced behind tokens that no lead
reaches. -/
theorem openFrom_surrounded
    {held : List Token}
    (stops : Lead.Stops held)
    (sign : Option Sign)
    (leadingRead : AreFactors leading leadingValues)
    (trailingRead : AreFactors trailing trailingValues)
    (closed : enclosure.Closed)
    (encloses : enclosedTerms enclosure.tokens = .ok terms)
    {rest remaining : List Token}
    (noFactor : rest.head? ≠ some .times)
    (restOpens : openAll rest = .ok remaining) :
    openFrom (.outside held)
        (approach sign leading ++ (enclosure.tokens ++ (trail trailing ++ rest))) =
      .ok (held.reverse ++
        replacement sign (leadingValues.reverse ++ trailingValues.reverse) enclosure.tokens terms ++
          remaining) := by
  obtain ⟨leadingNumerals, leadingWellFormed, rfl, rfl⟩ := leadingRead.exists_numerals
  obtain ⟨trailingNumerals, trailingWellFormed, rfl, rfl⟩ := trailingRead.exists_numerals
  have reversed : ∀ numeral ∈ leadingNumerals.reverse, numeral.WellFormed :=
    fun numeral member => leadingWellFormed numeral (List.mem_reverse.mp member)
  have signPlain : ∀ token ∈ (sign.map Token.sign).toList, token.hasParenthesis = false := by
    cases sign <;> simp [Token.hasParenthesis]
  have signReverse : (sign.map Token.sign).toList.reverse = (sign.map Token.sign).toList := by
    cases sign <;> rfl
  have leadRead := ofTokens_factorTokens reversed (Lead.ofTokens_sign stops sign)
  rw [openAll_eq] at restOpens
  rw [approach_map, trail_map, List.append_assoc, openFrom_outside_append held signPlain,
    signReverse, openFrom_outside_append _ (plain_leadTokens leadingWellFormed), reverse_leadTokens,
    openFrom_group closed encloses leadRead trailingWellFormed noFactor restOpens, List.append_nil,
    valuesOf, List.map_reverse]
  rfl

theorem distributed_replacement
    (sign : Option Sign)
    (leadingRead : AreFactors leading leadingValues)
    (trailingRead : AreFactors trailing trailingValues)
    (multiplied : ¬(leading = [] ∧ trailing = [] ∧ sign ≠ some .minus))
    (group : List Token)
    (nonempty : terms ≠ [])
    (wellFormed : ∀ term ∈ terms, term.WellFormed) :
    Distributed sign (leadingValues.prod * trailingValues.prod) terms
      (replacement sign (leadingValues.reverse ++ trailingValues.reverse) group terms) := by
  have product : product (leadingValues.reverse ++ trailingValues.reverse) =
      leadingValues.prod * trailingValues.prod := by
    rw [product_eq_prod, List.prod_append, List.prod_reverse, List.prod_reverse]
  have finite : ∀ factor ∈ leadingValues.reverse ++ trailingValues.reverse,
      Decimal.IsFinite factor := by
    obtain ⟨_, _, _, rfl⟩ := leadingRead.exists_numerals
    obtain ⟨_, _, _, rfl⟩ := trailingRead.exists_numerals
    intro factor member
    rcases List.mem_append.mp member with inLeading | inTrailing
    · exact isFinite_of_mem_valuesOf (List.mem_reverse.mp inLeading)
    · exact isFinite_of_mem_valuesOf (List.mem_reverse.mp inTrailing)
  have something : leadingValues.reverse ++ trailingValues.reverse ≠ [] ∨ sign = some .minus := by
    by_contra nothing
    obtain ⟨empty, notMinus⟩ := not_or.mp nothing
    rw [not_not, List.append_eq_nil_iff, List.reverse_eq_nil_iff, List.reverse_eq_nil_iff,
      leadingRead.eq_nil_iff, trailingRead.eq_nil_iff] at empty
    exact multiplied ⟨empty.1, empty.2, notMinus⟩
  rw [replacement_of_multiplied something, ← product]
  exact distributed_termTokens sign (isFinite_product finite) nonempty wellFormed

/-- A group with its sign and factors is opened by itself between tokens that are
opened by themselves.  It stays as it was written if nothing but possibly a `+`
goes with it, and otherwise it is distributed. -/
theorem openAll_group_in_context
    {former latter openedFormer openedLatter : List Token}
    (formerOpens : openAll former = .ok openedFormer)
    (formerEnds : ∀ token ∈ former.getLast?, token ≠ .times ∧ token.isSign = false)
    (latterOpens : openAll latter = .ok openedLatter)
    (latterBegins : latter.head? ≠ some .times)
    (sign : Option Sign)
    (leadingRead : AreFactors leading leadingValues)
    (trailingRead : AreFactors trailing trailingValues)
    (closed : enclosure.Closed)
    (reads : Term.readSequence (enclosedText enclosure.tokens) = .ok terms) :
    ∃ body,
      openAll (former ++
          (approach sign leading ++ (enclosure.tokens ++ (trail trailing ++ latter)))) =
        .ok (openedFormer ++ (body ++ openedLatter)) ∧
      if leading = [] ∧ trailing = [] ∧ sign ≠ some .minus then
        body = (sign.map Token.sign).toList ++ enclosure.tokens
      else
        Distributed sign (leadingValues.prod * trailingValues.prod) terms body := by
  obtain ⟨encloses, sequence⟩ := enclosedTerms_of_readSequence reads
  obtain ⟨settled, held, stops, rfl, opens⟩ := exists_held_of_openAll formerOpens formerEnds
  refine ⟨replacement sign (leadingValues.reverse ++ trailingValues.reverse) enclosure.tokens terms,
    ?_, ?_⟩
  · have begins : (approach sign leading ++
        (enclosure.tokens ++ (trail trailing ++ latter))).head? ≠ some .times := by
      obtain ⟨text, inner, others, _, tokens⟩ := enclosure.exists_literal
      rw [tokens]
      exact head?_approach sign leading text _
    rw [opens _ begins, openFrom_surrounded stops sign leadingRead trailingRead closed encloses
      latterBegins latterOpens]
    refine congrArg Except.ok ?_
    rw [List.append_assoc, List.append_assoc]
  · split
    next nothing =>
      have noFactors : leadingValues.reverse ++ trailingValues.reverse = [] := by
        rw [leadingRead.eq_nil_iff.mpr nothing.1, trailingRead.eq_nil_iff.mpr nothing.2.1]
        rfl
      rw [noFactors, replacement, if_pos]
      simpa using nothing.2.2
    next multiplied =>
      obtain ⟨⟨first, rest, rfl⟩, wellFormed⟩ := Term.wellFormed_of_sequence? sequence
      exact distributed_replacement sign leadingRead trailingRead multiplied enclosure.tokens
        (List.cons_ne_nil first rest) wellFormed

end Surrounded

/-- Between two other groups, each with a factor of its own, `- 0.5 * (x - 1) * 4`
is distributed apart from them. -/
theorem openAll_group_between_groups :
    openAll [.literal "3", .times, .literal "(a", .sign .minus, .literal "b)"] =
        .ok [.literal "3a", .sign .minus, .literal "3b"] ∧
      openAll [.sign .plus, .literal "2", .times, .literal "(c)"] =
        .ok [.sign .plus, .literal "2c"] ∧
      ∃ body,
        openAll [.literal "3", .times, .literal "(a", .sign .minus, .literal "b)",
            .sign .minus, .literal "0.5", .times, .literal "(x", .sign .minus, .literal "1)",
            .times, .literal "4", .sign .plus, .literal "2", .times, .literal "(c)"] =
          .ok (.literal "3a" :: .sign .minus :: .literal "3b" ::
            (body ++ [Token.sign .plus, Token.literal "2c"])) ∧
        Distributed (some .minus) 2 [⟨.plus, none, ⟨"x", ""⟩⟩, Term.constant .minus 1] body := by
  have formerOpens : openAll [.literal "3", .times, .literal "(a", .sign .minus, .literal "b)"] =
      .ok [.literal "3a", .sign .minus, .literal "3b"] := by decide +kernel
  have latterOpens : openAll [.sign .plus, .literal "2", .times, .literal "(c)"] =
      .ok [.sign .plus, .literal "2c"] := by decide +kernel
  have closed : (Enclosure.several ['x'] [.sign .minus] ['1']).Closed :=
    ⟨List.forall_mem_singleton.mpr (by decide),
      List.forall_mem_singleton.mpr (by decide),
      List.forall_mem_singleton.mpr (by decide)⟩
  have group : (Enclosure.several ['x'] [.sign .minus] ['1']).tokens =
      [.literal "(x", .sign .minus, .literal "1)"] := by decide
  have reads : Term.readSequence
      (enclosedText (Enclosure.several ['x'] [.sign .minus] ['1']).tokens) =
        .ok [⟨.plus, none, ⟨"x", ""⟩⟩, Term.constant .minus 1] := by decide +kernel
  have leadingRead : AreFactors ["0.5"] [1 / 2] := .cons (by decide +kernel) .nil
  have trailingRead : AreFactors ["4"] [4] := .cons (by decide +kernel) .nil
  refine ⟨formerOpens, latterOpens, ?_⟩
  obtain ⟨body, opens, distributed⟩ := openAll_group_in_context formerOpens (by decide) latterOpens
    (by decide) (some .minus) leadingRead trailingRead closed reads
  rw [group] at opens
  rw [if_neg (by decide)] at distributed
  have product : [1 / 2].prod * [4].prod = (2 : Rat) := by decide +kernel
  rw [product] at distributed
  exact ⟨body, opens, distributed⟩

end Group
end CanonicalEquation
