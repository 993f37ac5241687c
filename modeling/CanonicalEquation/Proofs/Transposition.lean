import CanonicalEquation.Proofs.Acceptance
import CanonicalEquation.Proofs.Group.Front
import CanonicalEquation.Proofs.Group.Pieces

/-!
# Moving items across the equality sign

A multiplied group, or a term, may be moved to the other side of an equation
with the sign in front of it turned round.  Both equations are worth the same:
the item is opened apart from the tokens around it, and what its opened tokens
stand for is added on the left-hand side and taken away on the right.
-/

namespace CanonicalEquation

/-! ## Sides with groups -/

/-- Whether a side can be read on its own once its groups are opened. -/
def Side.IsReadable (side : List Token) : Prop :=
  ∃ opened, Group.openAll side = .ok opened ∧ IsAccepted opened

theorem Group.Front.endsTerm
    {tokens settled held : List Token}
    (front : Front tokens settled held)
    (nonempty : tokens ≠ [])
    (accepted : Side.IsAccepted (settled ++ held.reverse)) :
    Side.EndsTerm (settled ++ held.reverse) := by
  cases front with
  | start empty => exact absurd empty nonempty
  | group former last isPart =>
      rw [List.reverse_nil, List.append_nil]
      exact isPart.endsTerm.append former
  | held last plain equals =>
      rw [List.reverse_cons, ← List.append_assoc] at accepted ⊢
      obtain ⟨text, rfl⟩ := Side.exists_literal_of_isAccepted accepted
      exact (Side.endsTerm_literal (Side.isParenthesis_eq_false plain)).append _

/-- A side that can be read on its own ends with a term when its groups are
opened, unless it is empty. -/
theorem Group.endsTerm_of_openAll
    {tokens : List Token}
    (areWords : ∀ token ∈ tokens, token.IsWord)
    (nonempty : tokens ≠ [])
    {opened : List Token}
    (opens : openAll tokens = .ok opened)
    (accepted : Side.IsAccepted opened) : Side.EndsTerm opened := by
  obtain ⟨settled, held, rfl, front⟩ := front_of_openAll areWords opens
  exact front.endsTerm nonempty accepted

/-- Where it is moved to, a side that can be read on its own is worth the same,
whatever stands in front of it. -/
theorem Equation.exists_sum?_subtract
    {side : List Token}
    (accepted : Side.IsAccepted side)
    (ends : Side.EndsTerm side) :
    ∃ worth, ∀ reading : Side.Reading, reading.sign = .plus →
      Side.sum? reading (subtract side) = some (worth, .afterTerm) := by
  obtain ⟨terms, reads⟩ := accepted
  obtain ⟨last, reads, _⟩ := Side.terms_eq_ok_iff.mp reads
  have moved : ∃ mark rest result, subtract side = .sign mark :: rest ∧
      Side.read? (.signed mark) rest = some result := by
    have ready := Side.Reading.signed_ne_afterTerm
    rcases subtract_cases side with ⟨sign, rest, rfl, subtracted⟩ | subtracted
    · rw [Side.read?_sign] at reads
      obtain ⟨result, moves⟩ :=
        Side.exists_read?_of_ready (ready _) (ready (-sign)) reads .minus
      exact ⟨-sign, rest.map turnSign, result, subtracted, moves⟩
    · obtain ⟨result, moves⟩ :=
        Side.exists_read?_of_ready Side.Reading.start_ne_afterTerm (ready .minus) reads .minus
      exact ⟨.minus, side.map turnSign, result, subtracted, moves⟩
  obtain ⟨mark, rest, result, subtracted, moves⟩ := moved
  refine ⟨Combination.ofTerms result.1, fun reading noSign => ?_⟩
  have sum : Side.sum? reading (subtract side) =
      some (Combination.ofTerms result.1, result.2) := by
    rw [subtracted, Side.sum?_sign, noSign, Sign.plus_mul, Side.sum?, moves, Option.map_some]
  rw [sum, ends.subtract sum]

/-! ## Items -/

/-- The items that can be moved across the equality sign. -/
inductive IsItem : List Token → Prop
  /-- A group behind a factor. -/
  | group
      {numeral : String}
      {factor : Rat}
      (isFactor : Decimal.ofText? numeral = some factor)
      {enclosure : Group.Enclosure}
      (wellFormed : enclosure.WellFormed)
      {terms : List Term}
      (encloses : Group.enclosedTerms enclosure.tokens = .ok terms) :
      IsItem (.literal numeral :: .times :: enclosure.tokens)
  /-- A term, possibly with a sign attached to it. -/
  | term
      {word : String}
      {term : Term}
      (isTerm : Term.ofChars? word.toList = some term) : IsItem [.literal word]

/-- What the pass makes of a multiplied group behind a sign. -/
theorem Group.openAll_multiplied
    (mark : Sign)
    {numeral : Numeral}
    (numeralWellFormed : numeral.WellFormed)
    {enclosure : Enclosure}
    (wellFormed : enclosure.WellFormed)
    {terms : List Term}
    (encloses : enclosedTerms enclosure.tokens = .ok terms) :
    openAll (.sign mark :: .literal (String.ofList numeral.chars) :: .times :: enclosure.tokens) =
      .ok (termTokens true
        (terms.map (multiply (some mark) (product [numeral.value])))) := by
  have numerals := List.forall_mem_singleton.mpr numeralWellFormed
  have leadRead : Lead.ofTokens (factorTokens [numeral] ++ [.sign mark]) =
      .ok ⟨[numeral.value], some mark, []⟩ :=
    @ofTokens_factorTokens [numeral] numerals [.sign mark] ⟨[], some mark, []⟩ rfl
  have opens : openFrom (.outside (factorTokens [numeral] ++ [.sign mark]))
      (enclosure.tokens ++ []) =
        .ok (replacement (some mark) [numeral.value] enclosure.tokens terms ++ []) :=
    @openFrom_group enclosure wellFormed.closed terms encloses _ _ leadRead []
      (List.forall_mem_nil _) [] [] nofun rfl
  rw [List.append_nil, List.append_nil] at opens
  rw [openAll_eq, openFrom_outside [] rfl]
  change openFrom (.outside [.sign mark]) (leadTokens [numeral] ++ enclosure.tokens) = _
  rw [openFrom_outside_append _ (plain_leadTokens numerals), reverse_leadTokens,
    List.reverse_singleton, opens]
  rfl

/-- Behind a sign, an item is opened to tokens that stand for what it is worth
behind that sign. -/
theorem IsItem.exists_opened
    {item : List Token}
    (isItem : IsItem item)
    (areWords : ∀ token ∈ item, token.IsWord) :
    ∃ worth, ∀ mark : Sign, ∃ opened, Group.openAll (.sign mark :: item) = .ok opened ∧
      Equation.StandsFor true opened (mark.scale worth) := by
  cases isItem with
  | @group numeral factor isFactor enclosure wellFormed terms encloses =>
      obtain ⟨found, isNumeral, rfl⟩ := Option.map_eq_some_iff.mp isFactor
      obtain ⟨numeralWellFormed, chars⟩ := Numeral.ofChars?_eq_some_iff.mp isNumeral
      obtain rfl : String.ofList found.chars = numeral := by rw [chars, String.ofList_toList]
      have content := Group.Enclosure.content_of_enclosedTerms wellFormed encloses
      obtain ⟨first, rest, cons⟩ := content.exists_cons
      have finite : Decimal.IsFinite (Group.product [found.value]) :=
        Group.isFinite_product (List.forall_mem_singleton.mpr (Decimal.isFinite_numeralValue found))
      refine ⟨Group.product [found.value] • Combination.ofTerms terms, fun mark =>
        ⟨_, Group.openAll_multiplied mark numeralWellFormed wellFormed encloses, ?_⟩⟩
      have scaled := Group.ofTerms_map_multiply (some mark) (Group.product [found.value]) terms
      rw [Option.getD_some] at scaled
      rw [← scaled]
      apply Group.standsFor_termTokens
      · simp [cons]
      · exact List.forall_mem_map.mpr fun term member =>
          Group.wellFormed_multiply (some mark) finite (content.wellFormed term member)
  | @term word term isTerm =>
      have solid := (areWords _ (List.mem_singleton_self _)).solid.isTermBlank
      obtain ⟨sign, monomial, wellFormed, chars, rfl⟩ := (Term.ofChars?_eq_some_iff solid).mp isTerm
      have text : word = String.ofList (Term.signChars sign ++ monomial.chars) := by
        rw [← chars, Token.text_literal, String.ofList_toList]
      subst text
      refine ⟨(monomial.toTerm (sign.getD .plus)).combination, fun mark =>
        ⟨_, Group.openAll_plain ?_, Equation.standsFor_signed_literal mark sign wellFormed⟩⟩
      exact List.forall_mem_cons.mpr
        ⟨rfl, List.forall_mem_singleton.mpr (Side.hasParenthesis_written sign wellFormed)⟩

/-! ## Moving items -/

/-- What an equation is worth with an item at the end of its left-hand side, and
with the item moved to the end of its right-hand side. -/
theorem textWorth?_move
    {first second : String}
    {left right item : List Token}
    (isItem : IsItem item)
    (leftReadable : Side.IsReadable left)
    (rightReadable : Side.IsReadable right)
    (nonempty : right ≠ [])
    (firstTokens : Token.scan first = (left ++ .sign .plus :: item) ++ .equals :: right)
    (secondTokens : Token.scan second = left ++ .equals :: (right ++ .sign .minus :: item)) :
    ∃ worth, textWorth? first = some worth ∧ textWorth? second = some worth := by
  have areWords : ∀ token ∈ (left ++ .sign .plus :: item) ++ .equals :: right, token.IsWord :=
    firstTokens ▸ fun token member => Token.isWord_of_mem_scan member
  obtain ⟨leftWords, rightWords⟩ := List.forall_mem_append.mp areWords
  obtain ⟨_, itemWords⟩ := List.forall_mem_append.mp leftWords
  obtain ⟨openedLeft, leftOpens, leftTerms, leftRead⟩ := leftReadable
  obtain ⟨openedRight, rightOpens, rightAccepted⟩ := rightReadable
  obtain ⟨itemWorth, itemOpens⟩ := isItem.exists_opened (List.forall_mem_cons.mp itemWords).2
  obtain ⟨added, addedOpens, addedStands⟩ := itemOpens .plus
  obtain ⟨taken, takenOpens, takenStands⟩ := itemOpens .minus
  -- What is read of the left-hand side is the same in both equations.
  obtain ⟨last, leftRead, complete⟩ := Side.terms_eq_ok_iff.mp leftRead
  have noSign := Side.sign_of_complete? complete
  have leftSum : Side.sum? .start openedLeft = some (Combination.ofTerms leftTerms, last) := by
    rw [Side.sum?, leftRead, Option.map_some]
  -- Moved to the left, the right-hand side is worth the same behind an item and without one.
  have rightEnds := Group.endsTerm_of_openAll (List.forall_mem_cons.mp rightWords).2 nonempty
    rightOpens rightAccepted
  obtain ⟨rightWorth, rightSum⟩ := Equation.exists_sum?_subtract rightAccepted rightEnds
  have leftNone := Side.equals_notMem_of_read? leftRead
  have rightNone := rightAccepted.equals_notMem
  have behindSides : ∀ rest, Group.BeginsApart (.equals :: rest) := by simp [Group.BeginsApart]
  have behindItem : ∀ mark : Sign, Group.BeginsApart (.sign mark :: item) := by
    simp [Group.BeginsApart, Token.isSign]
  refine ⟨Combination.ofTerms leftTerms + itemWorth + rightWorth, ?_, ?_⟩
  · have opens := Group.openAll_append (behindSides right)
      (Group.openAll_append (behindItem .plus) leftOpens addedOpens)
      (Group.openAll_equals rightOpens)
    have addedSum : Side.sum? .start (openedLeft ++ added) =
        some (Combination.ofTerms leftTerms + itemWorth, .afterTerm) := by
      rw [Side.sum?_append, leftSum, Option.bind_some, addedStands.onLeft last noSign fun _ => rfl]
      rfl
    rw [textWorth?_of_openAll firstTokens opens]
    exact Equation.worth?_eq_some (by simp [leftNone, addedStands.noEquals]) rightNone
      rightEnds.ne_nil addedSum (rightSum .afterTerm rfl)
  · have opens := Group.openAll_append (behindSides _) leftOpens
      (Group.openAll_equals (Group.openAll_append (behindItem .minus) rightOpens takenOpens))
    have takenSum : Side.sum? last (Equation.subtract (openedRight ++ taken)) =
        some (itemWorth + rightWorth, .afterTerm) := by
      rw [takenStands.subtract_append rightEnds.ne_nil, Side.sum?_append, rightSum last noSign,
        Option.bind_some, takenStands.onRight .afterTerm rfl, Option.map_some, Sign.scale_minus,
        neg_neg, add_comm]
    rw [textWorth?_of_openAll secondTokens opens, add_assoc]
    exact Equation.worth?_eq_some leftNone (by simp [rightNone, takenStands.noEquals])
      (by simp [rightEnds.ne_nil]) leftSum takenSum

/-- An item may be moved across the equality sign with its sign turned round.
Both equations have the same canonical form. -/
theorem canonicalForm_move
    {first second : String}
    {left right item : List Token}
    (isItem : IsItem item)
    (leftReadable : Side.IsReadable left)
    (rightReadable : Side.IsReadable right)
    (nonempty : right ≠ [])
    (firstTokens : Token.scan first = (left ++ .sign .plus :: item) ++ .equals :: right)
    (secondTokens : Token.scan second = left ++ .equals :: (right ++ .sign .minus :: item)) :
    ∃ canonical, canonicalForm .textual first = .ok canonical ∧
      canonicalForm .textual second = .ok canonical := by
  obtain ⟨worth, firstWorth, secondWorth⟩ :=
    textWorth?_move isItem leftReadable rightReadable nonempty firstTokens secondTokens
  exact ⟨worth.text, canonicalForm_textual firstWorth, canonicalForm_textual secondWorth⟩

/-- The group of `x + 2 * (y - 3) = z` may be moved behind the `z`. -/
theorem canonicalForm_move_group :
    IsItem [.literal "2", .times, .literal "(y", .sign .minus, .literal "3)"] ∧
      Side.IsReadable [.literal "x"] ∧ Side.IsReadable [.literal "z"] ∧
      ∃ canonical, canonicalForm .textual "x + 2 * (y - 3) = z" = .ok canonical ∧
        canonicalForm .textual "x = z - 2 * (y - 3)" = .ok canonical := by
  have readable : ∀ word, word = "x" ∨ word = "z" → Side.IsReadable [.literal word] := by
    rintro word (rfl | rfl)
    · exact ⟨_, rfl, _, rfl⟩
    · exact ⟨_, rfl, _, rfl⟩
  have wellFormed : (Group.Enclosure.several ['y'] [.sign .minus] ['3']).WellFormed :=
    ⟨Group.isPiece_nil.cons (by decide) rfl,
      List.forall_mem_singleton.mpr ⟨nofun, rfl, Token.isWord_sign .minus⟩,
      Group.isPiece_nil.cons (by decide) rfl⟩
  have isItem : IsItem [.literal "2", .times, .literal "(y", .sign .minus, .literal "3)"] :=
    @IsItem.group "2" 2 (by decide +kernel) _ wellFormed
      [⟨.plus, none, ⟨"y", ""⟩⟩, Term.constant .minus 3] (by rfl)
  refine ⟨isItem, readable "x" (.inl rfl), readable "z" (.inr rfl), ?_⟩
  exact canonicalForm_move isItem (readable "x" (.inl rfl)) (readable "z" (.inr rfl))
    (List.cons_ne_nil _ _) (by rfl) (by rfl)

end CanonicalEquation
