import CanonicalEquation.Proofs.Written.CanonicalForm

/-!
# Runs of signs in front of a group

Only the last sign of a run in front of a group is the sign of the group and
multiplies all of its terms.  The other signs of the run stay on the side and
multiply the term that is read next, which is the first one of the group.
-/

namespace CanonicalEquation

namespace Sign

/-- The product of the signs of a run. -/
def productOf (signs : List Sign) : Sign :=
  signs.foldr (· * ·) plus

theorem productOf_append_singleton
    (signs : List Sign)
    (last : Sign) : productOf (signs ++ [last]) = productOf signs * last := by
  induction signs with
  | nil => exact Sign.mul_plus last
  | cons first rest inductionHypothesis =>
      change first * productOf (rest ++ [last]) = first * productOf rest * last
      rw [inductionHypothesis, Sign.mul_assoc]

end Sign

/-- The signs of a run multiply what is read behind them. -/
theorem Side.sum?_signs
    (signs : List Sign)
    (reading : Reading) :
    ∃ next, sum? reading (signs.map Token.sign) = some (0, next) ∧
      next.sign = reading.sign * Sign.productOf signs := by
  induction signs generalizing reading with
  | nil => exact ⟨reading, rfl, (Sign.mul_plus reading.sign).symm⟩
  | cons first rest inductionHypothesis =>
      obtain ⟨next, reads, sign⟩ := inductionHypothesis (.signed (reading.sign * first))
      refine ⟨next, ?_, ?_⟩
      · rw [List.map_cons, sum?_sign, reads]
      · rw [sign]
        exact Sign.mul_assoc reading.sign first (Sign.productOf rest)

namespace Written

/-- A literal and a group behind it with a run of signs between them. -/
structure SignRun where
  /-- The literal in front of the run. -/
  literal : Literal
  /-- The signs of the run, without the last one. -/
  signs : List Sign
  /-- The last sign of the run. -/
  last : Sign
  /-- The group with its factors. -/
  bracket : Bracket

namespace SignRun

/-- The tokens in front of the group, without the last sign of the run. -/
def frontTokens (run : SignRun) : List Token :=
  run.literal.token :: run.signs.map Token.sign

/-- The tokens of the equation with zero. -/
def tokens (run : SignRun) : List Token :=
  run.frontTokens ++ .sign run.last :: (run.bracket.tokens ++ Equation.zeroTail)

/-- The text of the equation with zero. -/
def text (run : SignRun) : String :=
  Token.spacedText run.tokens

/-- The product of the factors of the group. -/
def factor (run : SignRun) : Rat :=
  productOf run.bracket.before * productOf run.bracket.after

/-- The literal, and the group with every term behind the whole run. -/
noncomputable def intended (run : SignRun) : Combination :=
  run.literal.term.combination +
    (Sign.productOf (run.signs ++ [run.last])).scale
      (run.factor • Combination.ofTerms run.bracket.sum.terms)

/-- The literal, and the group with its first term behind the whole run but
the others behind the last sign only. -/
noncomputable def worth (run : SignRun) : Combination :=
  run.literal.term.combination +
    ((Sign.productOf (run.signs ++ [run.last])).scale
        (run.factor • run.bracket.sum.first.term.combination) +
      run.last.scale (run.factor • Combination.ofTerms run.bracket.sum.restTerms))

theorem isWord_tokens (run : SignRun) : ∀ token ∈ run.tokens, token.IsWord := by
  refine List.forall_mem_append.mpr ⟨List.forall_mem_cons.mpr ⟨run.literal.isWord_token, ?_⟩,
    List.forall_mem_cons.mpr ⟨Token.isWord_sign run.last,
      List.forall_mem_append.mpr ⟨run.bracket.isWord_tokens, ?_⟩⟩⟩
  · intro token member
    obtain ⟨sign, _, rfl⟩ := List.mem_map.mp member
    exact Token.isWord_sign sign
  · refine List.forall_mem_cons.mpr ⟨Token.isWord_equals, List.forall_mem_singleton.mpr ?_⟩
    exact Token.isWord_literal (by decide) (Text.solid_singleton rfl) (by simp)

theorem plain_frontTokens (run : SignRun) :
    ∀ token ∈ run.frontTokens, token.hasParenthesis = false := by
  refine List.forall_mem_cons.mpr
    ⟨Side.hasParenthesis_written run.literal.sign run.literal.monomial.property, ?_⟩
  intro token member
  obtain ⟨sign, _, rfl⟩ := List.mem_map.mp member
  rfl

/-- The group takes the last sign of the run, and the others stay in front. -/
theorem openAll_tokens
    (run : SignRun)
    {enclosure : Group.Enclosure}
    (tokens : enclosure.tokens = run.bracket.sum.tokens)
    (regular : Group.Regular enclosure run.bracket.sum.first.term run.bracket.sum.restTerms) :
    Group.openAll run.tokens =
      .ok ((run.frontTokens ++ Group.replacement (some run.last) run.bracket.factors
        enclosure.tokens run.bracket.sum.terms) ++ Equation.zeroTail) := by
  have lead : Group.Lead.ofTokens (.sign run.last :: run.frontTokens.reverse) =
      .ok ⟨[], some run.last, run.frontTokens.reverse⟩ := rfl
  have zeroOpens : Group.openAll Equation.zeroTail = .ok Equation.zeroTail :=
    Group.openAll_plain (by decide)
  have opens := run.bracket.openFrom_tokens tokens regular lead (by decide) zeroOpens
  rw [List.reverse_reverse] at opens
  rw [Group.openAll_eq, SignRun.tokens, Group.openFrom_outside_append [] run.plain_frontTokens,
    List.append_nil, Group.openFrom_outside _ rfl]
  exact opens

theorem sum?_frontTokens (run : SignRun) :
    ∃ next, Side.sum? .start run.frontTokens = some (run.literal.term.combination, next) ∧
      next.sign = Sign.productOf run.signs := by
  obtain ⟨next, reads, sign⟩ := Side.sum?_signs run.signs .afterTerm
  refine ⟨next, ?_, sign⟩
  rw [frontTokens, Literal.token, Literal.chars, Side.sum?_written Side.Reading.start_ne_afterTerm
    run.literal.sign run.literal.monomial.property, reads, Option.map_some, add_zero]
  rfl

theorem sum?_subtract_zero :
    Side.sum? .afterTerm (Equation.subtract [.literal "0"]) = some (0, .afterTerm) := by
  have zero : Monomial.WellFormed ⟨some ⟨['0'], []⟩, [], []⟩ :=
    Monomial.wellFormed_constant (Numeral.wellFormed_digit rfl)
  have worth : (Monomial.toTerm .plus ⟨some ⟨['0'], []⟩, [], []⟩).combination = 0 := by
    have value : (Monomial.toTerm .plus ⟨some ⟨['0'], []⟩, [], []⟩).value = 0 := by decide +kernel
    rw [Term.combination, value, Finsupp.single_zero]
  have stands := (Equation.standsFor_literal none zero).onRight .afterTerm rfl
  rw [Option.getD_none, worth, neg_zero] at stands
  exact stands

theorem textWorth?_text (run : SignRun) : textWorth? run.text = some run.worth := by
  obtain ⟨enclosure, tokens, regular⟩ := run.bracket.sum.exists_enclosure
  obtain ⟨next, frontReads, sign⟩ := run.sum?_frontTokens
  have groupReads :=
    regular.sum?_replacement_signed run.bracket.isFinite_factors run.last .plus next
  rw [Equation.map_turnBy_plus, sign, run.bracket.product_factors] at groupReads
  have frontNone : .equals ∉ run.frontTokens := by
    simp [frontTokens, Literal.token]
  have leftNone : .equals ∉ run.frontTokens ++ Group.replacement (some run.last)
      run.bracket.factors enclosure.tokens run.bracket.sum.terms := by
    rw [List.mem_append, not_or]
    exact ⟨frontNone, Group.equals_notMem_replacement _ _ regular.wellFormed _⟩
  rw [textWorth?, text, Token.scan_spacedText run.isWord_tokens, run.openAll_tokens tokens regular]
  change CanonicalEquation.Equation.worth? _ = _
  rw [Equation.zeroTail,
    CanonicalEquation.Equation.worth?_append_equals leftNone (by simp) (by simp), Side.worth?,
    Side.sum?_append, Side.sum?_append, frontReads, Option.bind_some, Sum.terms, groupReads,
    Option.map_some, Option.bind_some, sum?_subtract_zero, Option.map_some, add_zero, worth,
    Sign.productOf_append_singleton, Sign.scale_mul]
  rfl

theorem worth_eq_intended_iff (run : SignRun) :
    run.worth = run.intended ↔
      Sign.productOf run.signs = .plus ∨
        run.factor • Combination.ofTerms run.bracket.sum.restTerms = 0 := by
  rw [worth, intended, Sum.terms, Combination.ofTerms_cons, smul_add, Sign.scale_add,
    add_right_inj, add_right_inj, Sign.productOf_append_singleton, Sign.scale_mul]
  cases Sign.productOf run.signs with
  | plus => exact iff_of_true rfl (.inl rfl)
  | minus =>
      rw [Sign.scale_minus, Combination.eq_neg_iff, Sign.scale_eq_zero_iff]
      exact ⟨.inr, fun either => either.resolve_left nofun⟩

/-- A run of signs in front of a group multiplies the first term of the group,
but the others only by its last sign.  It multiplies the whole group exactly
when its other signs cancel out or the other terms of the group do. -/
theorem signs_multiply_group_iff
    (run : SignRun)
    (order : PowerOrder) :
    ∃ terms, canonicalForm order run.text = .ok (Equation.render terms Equation.zeroTail) ∧
      canonicalTerms order run.text = .ok terms ∧
      Combination.ofTerms terms = run.worth ∧
      (Combination.ofTerms terms = run.intended ↔
        Sign.productOf run.signs = .plus ∨
          run.factor • Combination.ofTerms run.bracket.sum.restTerms = 0) := by
  obtain ⟨found, canonical, foundWorth⟩ := exists_canonicalTerms run.textWorth?_text order
  have total : Combination.ofTerms (order.sort (Tally.ofTerms found).terms) = run.worth := by
    rw [ofTerms_sort_terms, foundWorth]
  refine ⟨_, ?_, canonical, total, ?_⟩
  · rw [canonicalForm_eq, canonical]
    rfl
  · rw [total]
    exact run.worth_eq_intended_iff

example : canonicalForm .textual "x - + (y + z) = 0" = .ok "x - y + z = 0" := by
  rfl

end SignRun
end Written
end CanonicalEquation
