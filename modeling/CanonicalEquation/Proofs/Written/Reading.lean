import CanonicalEquation.Proofs.Group.Pieces
import CanonicalEquation.Proofs.Written.Syntax

/-!
# Reading written equations

The groups of a written side are opened one item at a time.  What an item is
replaced by stands for what the item is worth: read on the left-hand side it
adds that, and moved from the right-hand side it takes that away.
-/

namespace CanonicalEquation
namespace Written

/-! ## Words -/

theorem isPiece_monomial
    {monomial : Monomial}
    (wellFormed : monomial.WellFormed)
    (sign : Option Sign) : Group.IsPiece (Term.signChars sign ++ monomial.chars) := by
  refine ⟨?_, Term.solid_signChars_append sign wellFormed⟩
  have plain := Side.hasParenthesis_written sign wellFormed
  rw [Token.hasParenthesis_literal_eq_false_iff, String.toList_ofList] at plain
  exact plain

theorem isInner_monomial (monomial : Unsigned) :
    Group.IsInner (.literal (String.ofList monomial.val.chars)) :=
  ⟨nofun, Side.hasParenthesis_written none monomial.property,
    Side.isWord_written none monomial.property⟩

theorem isInner_sign (sign : Sign) : Group.IsInner (.sign sign) :=
  ⟨nofun, rfl, Token.isWord_sign sign⟩

namespace Sum

/-- The tokens behind the first word of a group are written as those of an
enclosure, and their signs all stand alone. -/
theorem exists_closing
    (word : List Char)
    (sign : Sign)
    (monomial : Unsigned)
    (rest : List (Sign × Unsigned)) :
    ∃ middle last,
      closingTokens word ((sign, monomial) :: rest) =
        .literal (String.ofList word) ::
          (middle ++ [.literal (String.ofList (last ++ [')']))]) ∧
      (∀ token ∈ middle, Group.IsInner token) ∧ Group.IsPiece last ∧ last ≠ [] ∧
      Group.Following (middle ++ [.literal (String.ofList last)])
        (((sign, monomial) :: rest).map fun (sign, monomial) => monomial.val.toTerm sign) ∧
      Group.Apart (middle ++ [.literal (String.ofList last)]) := by
  induction rest generalizing word sign monomial with
  | nil =>
      refine ⟨[.sign sign], monomial.val.chars, rfl, ?_, ?_, ?_, ?_, ?_⟩
      · exact List.forall_mem_singleton.mpr (isInner_sign sign)
      · exact isPiece_monomial monomial.property none
      · exact Monomial.chars_ne_nil monomial.property
      · exact .apart sign monomial.property .nil
      · apply (Group.apart_cons_cons_iff sign monomial.property).mpr
        exact Group.apart_nil
  | cons next others inductionHypothesis =>
      obtain ⟨middle, last, equal, areInner, piece, nonempty, following, apart⟩ :=
        inductionHypothesis monomial.val.chars next.1 next.2
      refine ⟨.sign sign :: .literal (String.ofList monomial.val.chars) :: middle, last, ?_, ?_,
        piece, nonempty, ?_, ?_⟩
      · rw [closingTokens, equal]
        rfl
      · exact List.forall_mem_cons.mpr ⟨isInner_sign sign,
          List.forall_mem_cons.mpr ⟨isInner_monomial monomial, areInner⟩⟩
      · exact .apart sign monomial.property following
      · exact (Group.apart_cons_cons_iff sign monomial.property).mpr apart

/-- A written group is an enclosure of its terms whose signs stand alone. -/
theorem exists_enclosure (sum : Sum) :
    ∃ enclosure : Group.Enclosure, enclosure.tokens = sum.tokens ∧
      Group.Regular enclosure sum.first.term sum.restTerms := by
  obtain ⟨⟨sign, monomial⟩, rest⟩ := sum
  have first := isPiece_monomial monomial.property sign
  have nonempty : Term.signChars sign ++ monomial.val.chars ≠ [] :=
    List.append_ne_nil_of_right_ne_nil _ (Monomial.chars_ne_nil monomial.property)
  cases rest with
  | nil =>
      refine ⟨.single (Term.signChars sign ++ monomial.val.chars), rfl, first,
        sign, monomial.val, [], monomial.property, if_neg nonempty, rfl, .nil, Group.apart_nil⟩
  | cons next others =>
      obtain ⟨middle, last, tokens, areInner, piece, lastNonempty, following, apart⟩ :=
        exists_closing ('(' :: (Term.signChars sign ++ monomial.val.chars)) next.1 next.2 others
      refine ⟨.several (Term.signChars sign ++ monomial.val.chars) middle last, tokens.symm,
        ⟨first, areInner, piece⟩, sign, monomial.val, middle ++ [.literal (String.ofList last)],
        monomial.property, ?_, rfl, following, apart⟩
      rw [Group.Enclosure.inner, Group.Enclosure.wordTokens, Group.Enclosure.wordTokens,
        if_neg nonempty, if_neg lastNonempty, List.append_assoc, List.singleton_append]

end Sum

/-! ## Opening what is written -/

theorem wellFormed_numeralsOf (factors : List Factor) :
    ∀ numeral ∈ numeralsOf factors, numeral.WellFormed := by
  intro numeral member
  obtain ⟨factor, _, rfl⟩ := List.mem_map.mp member
  exact factor.property

namespace Bracket

/-- The factors of a group, from the group outwards to the front and then from
the end back to the group. -/
def factors (bracket : Bracket) : List Rat :=
  Group.valuesOf (numeralsOf bracket.before).reverse ++
    (Group.valuesOf (numeralsOf bracket.after)).reverse

theorem product_factors (bracket : Bracket) :
    Group.product bracket.factors = productOf bracket.before * productOf bracket.after := by
  rw [Group.product_eq_prod, factors, List.prod_append, Group.valuesOf, Group.valuesOf,
    List.map_reverse, List.prod_reverse, List.prod_reverse, numeralsOf, numeralsOf, List.map_map,
    List.map_map]
  rfl

theorem isFinite_factors (bracket : Bracket) :
    ∀ factor ∈ bracket.factors, Decimal.IsFinite factor := by
  intro factor member
  rcases List.mem_append.mp member with inBefore | inAfter
  · exact Group.isFinite_of_mem_valuesOf inBefore
  · exact Group.isFinite_of_mem_valuesOf (List.mem_reverse.mp inAfter)

/-- What the pass makes of a group with its factors, behind tokens that it holds
back. -/
theorem openFrom_tokens
    (bracket : Bracket)
    {enclosure : Group.Enclosure}
    (tokens : enclosure.tokens = bracket.sum.tokens)
    (regular : Group.Regular enclosure bracket.sum.first.term bracket.sum.restTerms)
    {front before : List Token}
    {sign : Option Sign}
    (lead : Group.Lead.ofTokens front = .ok ⟨[], sign, before⟩)
    {rest remaining : List Token}
    (noFactor : rest.head? ≠ some .times)
    (restOpens : Group.openAll rest = .ok remaining) :
    Group.openFrom (.outside front) (bracket.tokens ++ rest) =
      .ok (before.reverse ++
        Group.replacement sign bracket.factors enclosure.tokens bracket.sum.terms ++
          remaining) := by
  have reversed : ∀ numeral ∈ (numeralsOf bracket.before).reverse, numeral.WellFormed :=
    fun numeral member =>
      wellFormed_numeralsOf bracket.before numeral (List.mem_reverse.mp member)
  have frontRead := Group.ofTokens_factorTokens reversed lead
  rw [Group.openAll_eq] at restOpens
  rw [Bracket.tokens, List.append_assoc,
    Group.openFrom_outside_append front
      (Group.plain_leadTokens (wellFormed_numeralsOf bracket.before)),
    Group.reverse_leadTokens, List.append_assoc, ← tokens,
    Group.openFrom_group regular.wellFormed.closed regular.encloses frontRead
      (wellFormed_numeralsOf bracket.after) noFactor restOpens, List.append_nil]
  rfl

theorem noTokens :
    ([] : List Token).head? ≠ some .times ∧ Group.openAll [] = .ok [] :=
  ⟨nofun, rfl⟩

/-- What replaces a group with its factors stands for what it is worth. -/
theorem exists_opened (bracket : Bracket) :
    ∃ opened, Group.openAll bracket.tokens = .ok opened ∧
      Equation.StandsFor false opened bracket.combination := by
  obtain ⟨enclosure, tokens, regular⟩ := bracket.sum.exists_enclosure
  have noLead : Group.Lead.ofTokens [] = .ok ⟨[], none, []⟩ := rfl
  have opens := bracket.openFrom_tokens tokens regular noLead noTokens.1 noTokens.2
  rw [List.append_nil, List.append_nil, List.reverse_nil, List.nil_append] at opens
  have stands := regular.standsFor_unsigned bracket.isFinite_factors
  rw [bracket.product_factors] at stands
  exact ⟨_, (Group.openAll_eq _).trans opens, stands⟩

/-- What replaces a group with its factors behind a sign stands for what it is
worth, behind the sign. -/
theorem exists_opened_signed
    (bracket : Bracket)
    (sign : Sign) :
    ∃ opened, Group.openAll (.sign sign :: bracket.tokens) = .ok opened ∧
      Equation.StandsFor true opened (sign.scale bracket.combination) := by
  obtain ⟨enclosure, tokens, regular⟩ := bracket.sum.exists_enclosure
  have signLead : Group.Lead.ofTokens [.sign sign] = .ok ⟨[], some sign, []⟩ := rfl
  have opens := bracket.openFrom_tokens tokens regular signLead noTokens.1 noTokens.2
  rw [List.append_nil, List.append_nil, List.reverse_nil, List.nil_append] at opens
  have stands := regular.standsFor_signed bracket.isFinite_factors sign
  rw [bracket.product_factors] at stands
  refine ⟨_, ?_, stands⟩
  rw [Group.openAll_eq, Group.openFrom_outside [] rfl]
  exact opens

end Bracket

namespace Item

/-- An item without a sign in front is opened, and what comes of it stands for
what the item is worth. -/
theorem exists_opened (item : Item) :
    ∃ opened, Group.openAll item.tokens = .ok opened ∧
      Equation.StandsFor false opened item.combination := by
  cases item with
  | literal written =>
      have wellFormed := written.monomial.property
      refine ⟨[written.token], Group.openAll_plain ?_,
        Equation.standsFor_literal written.sign wellFormed⟩
      exact List.forall_mem_singleton.mpr (Side.hasParenthesis_written written.sign wellFormed)
  | bracket written => exact written.exists_opened

/-- An item behind a sign is opened, and what comes of it stands for what the
item is worth, behind the sign. -/
theorem exists_opened_signed (item : Sign × Item) :
    ∃ opened, Group.openAll (signedTokens item) = .ok opened ∧
      Equation.StandsFor true opened (signedCombination item) := by
  obtain ⟨sign, item⟩ := item
  cases item with
  | literal written =>
      have wellFormed := written.monomial.property
      refine ⟨[.sign sign, written.token], Group.openAll_plain ?_,
        Equation.standsFor_signed_literal sign written.sign wellFormed⟩
      exact List.forall_mem_cons.mpr ⟨rfl, List.forall_mem_singleton.mpr
        (Side.hasParenthesis_written written.sign wellFormed)⟩
  | bracket written => exact written.exists_opened_signed sign

end Item

namespace Side

theorem exists_opened_first (side : Side) :
    ∃ signed opened, Group.openAll side.firstTokens = .ok opened ∧
      Equation.StandsFor signed opened
        ((side.sign.getD .plus).scale side.first.combination) := by
  unfold firstTokens
  cases side.sign with
  | none =>
      obtain ⟨opened, opens, stands⟩ := side.first.exists_opened
      exact ⟨false, opened, opens, stands⟩
  | some sign =>
      obtain ⟨opened, opens, stands⟩ := Item.exists_opened_signed (sign, side.first)
      exact ⟨true, opened, opens, stands⟩

/-- More items behind signs only add what they are worth. -/
theorem exists_opened_append
    {signed : Bool}
    {tokens opened : List Token}
    {worth : Combination}
    (opens : Group.openAll tokens = .ok opened)
    (stands : Equation.StandsFor signed opened worth)
    (items : List (Sign × Item)) :
    ∃ more, Group.openAll (tokens ++ items.flatMap signedTokens) = .ok more ∧
      Equation.StandsFor signed more (worth + (items.map signedCombination).sum) := by
  induction items generalizing tokens opened worth with
  | nil =>
      refine ⟨opened, ?_, ?_⟩
      · rw [List.flatMap_nil, List.append_nil, opens]
      · rw [List.map_nil, List.sum_nil, add_zero]
        exact stands
  | cons first rest inductionHypothesis =>
      obtain ⟨next, nextOpens, nextStands⟩ := Item.exists_opened_signed first
      have apart : Group.BeginsApart (signedTokens first) := by
        intro token member
        obtain rfl := Option.some.inj member
        exact .inl rfl
      obtain ⟨more, moreOpens, moreStands⟩ := inductionHypothesis
        (Group.openAll_append apart opens nextOpens) (stands.append nextStands)
      refine ⟨more, ?_, ?_⟩
      · rw [List.flatMap_cons, ← List.append_assoc, moreOpens]
      · rw [List.map_cons, List.sum_cons, ← add_assoc]
        exact moreStands

/-- A written side is opened, and what comes of it stands for what the side is
worth. -/
theorem exists_opened (side : Side) :
    ∃ signed opened, Group.openAll side.tokens = .ok opened ∧
      Equation.StandsFor signed opened side.combination := by
  obtain ⟨signed, first, firstOpens, firstStands⟩ := side.exists_opened_first
  obtain ⟨opened, opens, stands⟩ := exists_opened_append firstOpens firstStands side.rest
  exact ⟨signed, opened, opens, stands⟩

end Side

namespace Equation

/-- A written equation is opened, and what comes of it is worth the left-hand
side less the right-hand side. -/
theorem exists_opened (equation : Equation) :
    ∃ opened, Group.openAll equation.tokens = .ok opened ∧
      CanonicalEquation.Equation.worth? opened = some equation.combination := by
  obtain ⟨rightSigned, right, rightOpens, rightStands⟩ := equation.right.exists_opened
  have equalsOpens := Group.openAll_equals rightOpens
  have apart : Group.BeginsApart (.equals :: equation.right.tokens) := by
    intro token member
    obtain rfl := Option.some.inj member
    exact .inr rfl
  unfold tokens leftTokens combination
  cases equation.left with
  | none =>
      refine ⟨.equals :: right, equalsOpens, ?_⟩
      rw [rightStands.worth?_equals]
      exact congrArg some (zero_sub _).symm
  | some left =>
      obtain ⟨leftSigned, leftOpened, leftOpens, leftStands⟩ := left.exists_opened
      exact ⟨leftOpened ++ .equals :: right, Group.openAll_append apart leftOpens equalsOpens,
        leftStands.worth?_append_equals rightStands⟩

end Equation
end Written
end CanonicalEquation
