import CanonicalEquation.Proofs.CanonicalForm
import CanonicalEquation.Proofs.Group.Insertion

/-!
# Kept and distributed groups in an equation

An equation is compared with itself with the tokens `1` and `*` put in front
of one of its groups.  Both have the same canonical terms, or neither has any,
exactly when the group was multiplied before, or when it is read as a part of
its side in the same way as its terms are.
-/

namespace CanonicalEquation

/-- Whether a text has no canonical form. -/
def Rejected (order : PowerOrder) (text : String) : Prop :=
  ∀ result, canonicalForm order text ≠ .ok result

theorem rejected_iff
    {order : PowerOrder}
    {text : String} : Rejected order text ↔ textWorth? text = none := by
  rw [Option.eq_none_iff_forall_ne_some]
  exact not_exists.symm.trans ((not_congr exists_canonicalForm_iff).trans not_exists)

namespace Group

/-- One more factor of one for a group, in front of which the given tokens are
settled and held back. -/
theorem Front.worth?_replacement_iff
    {before settled held : List Token}
    (front : Front before settled held)
    {lead : Lead}
    (read : Lead.ofTokens held = .ok lead)
    {more : List Rat}
    {rest : List Token}
    (noMore : more = [] ↔ rest.head? ≠ some .times)
    {enclosure : Enclosure}
    (wellFormed : enclosure.WellFormed)
    {terms : List Term}
    (encloses : enclosedTerms enclosure.tokens = .ok terms)
    (remaining : List Token) :
    Equation.worth? (settled ++ (lead.before.reverse ++
        (replacement lead.sign (lead.factors ++ more) enclosure.tokens terms ++ remaining))) =
      Equation.worth? (settled ++ (lead.before.reverse ++
        (replacement lead.sign (1 :: (lead.factors ++ more)) enclosure.tokens terms ++
          remaining))) ↔
      Equation.worth? (settled ++ (lead.before.reverse ++
            (replacement lead.sign (lead.factors ++ more) enclosure.tokens terms ++
              remaining))) = none ∧
          Equation.worth? (settled ++ (lead.before.reverse ++
            (replacement lead.sign (1 :: (lead.factors ++ more)) enclosure.tokens terms ++
              remaining))) = none ∨
        (Multiplied before rest ∨ ReadsAlike before enclosure) := by
  obtain ⟨first, others, rfl⟩ :=
    (Enclosure.content_of_enclosedTerms wellFormed encloses).exists_cons
  rcases front.behind read with ⟨last, multiplied⟩ | ⟨notLast, noFactors, behind⟩
  · have stillMultiplied : lead.factors ++ more ≠ [] ∨ lead.sign = some .minus :=
      multiplied.imp (fun nonempty => List.append_ne_nil_of_left_ne_nil nonempty more) id
    rw [replacement_one_cons stillMultiplied]
    exact iff_of_true rfl (.inr (.inl (last.imp id .inl)))
  · rw [noFactors, List.nil_append]
    by_cases factorBehind : rest.head? = some .times
    · have nonempty : more ≠ [] := fun empty => noMore.mp empty factorBehind
      rw [replacement_one_cons (.inl nonempty)]
      exact iff_of_true rfl (.inr (.inl (.inr (.inr factorBehind))))
    · obtain rfl : more = [] := noMore.mpr factorBehind
      have notMultiplied : ¬Multiplied before rest := by
        rintro (times | minus | behindGroup)
        · exact notLast (.inl times)
        · exact notLast (.inr minus)
        · exact factorBehind behindGroup
      rw [or_iff_right notMultiplied, ← List.append_assoc settled, ← List.append_assoc settled]
      exact Group.worth?_replacement_iff behind wellFormed encloses remaining

/-- With a factor of one in front of a group, an equation is worth the same
exactly when the group was multiplied before or is read alike, or the equation
is worth nothing in either case. -/
theorem textWorth?_insert_iff
    {first second : String}
    {before rest : List Token}
    {enclosure : Enclosure}
    (firstTokens : Token.scan first = before ++ (enclosure.tokens ++ rest))
    (secondTokens :
      Token.scan second = before ++ .literal "1" :: .times :: (enclosure.tokens ++ rest))
    (wellFormed : enclosure.WellFormed) :
    textWorth? first = textWorth? second ↔
      textWorth? first = none ∧ textWorth? second = none ∨
        (Multiplied before rest ∨ ReadsAlike before enclosure) := by
  have bothNone : textWorth? first = none ∧ textWorth? second = none →
      (textWorth? first = textWorth? second ↔
        textWorth? first = none ∧ textWorth? second = none ∨
          (Multiplied before rest ∨ ReadsAlike before enclosure)) := fun none =>
    ⟨fun _ => .inl none, fun _ => none.1.trans none.2.symm⟩
  have areWords : ∀ token ∈ before, token.IsWord := by
    intro token member
    have inText : token ∈ Token.scan first := firstTokens ▸ List.mem_append_left _ member
    exact Token.isWord_of_mem_scan inText
  obtain ⟨opening, inner, others, chars, tokens⟩ := enclosure.exists_literal
  have insert := openAll_insert areWords chars (others ++ rest)
  rw [← List.cons_append, ← tokens] at insert
  rcases insert with fails | ⟨settled, held, front, firstOpens, secondOpens⟩
  · exact bothNone ⟨textWorth?_eq_none firstTokens fails.1,
      textWorth?_eq_none secondTokens fails.2⟩
  · rcases openFrom_insert wellFormed held rest with
      fails | ⟨lead, terms, more, remaining, read, encloses, noMore, keptOpens, rewrittenOpens⟩
    · apply bothNone
      constructor
      · apply textWorth?_eq_none firstTokens
        rw [firstOpens]
        exact toOption_bind_of_none fails.1 _
      · apply textWorth?_eq_none secondTokens
        rw [secondOpens]
        exact toOption_bind_of_none fails.2 _
    · rw [keptOpens] at firstOpens
      rw [rewrittenOpens] at secondOpens
      rw [textWorth?_of_openAll firstTokens firstOpens,
        textWorth?_of_openAll secondTokens secondOpens]
      exact front.worth?_replacement_iff read noMore wellFormed encloses remaining

/-- If no group is written behind the tokens in front, no equation is read with
or without a factor. -/
theorem textWorth?_eq_none_of_not_written
    {first second : String}
    {before after : List Token}
    {opening : String}
    {inner : List Char}
    (firstTokens : Token.scan first = before ++ .literal opening :: after)
    (secondTokens :
      Token.scan second = before ++ .literal "1" :: .times :: .literal opening :: after)
    (chars : opening.toList = '(' :: inner)
    (notWritten : ¬∃ (enclosure : Enclosure) (rest : List Token),
      enclosure.WellFormed ∧ .literal opening :: after = enclosure.tokens ++ rest) :
    textWorth? first = none ∧ textWorth? second = none := by
  have areWords : ∀ token ∈ before ++ .literal opening :: after, token.IsWord :=
    fun token member => Token.isWord_of_mem_scan (firstTokens ▸ member)
  have fails := toOption_openAll_of_not_written areWords chars notWritten none
  exact ⟨textWorth?_eq_none firstTokens (fails []), textWorth?_eq_none secondTokens (fails ["1"])⟩

end Group

/-- A factor of one in front of a group changes nothing exactly when neither
equation has a canonical form, the group was multiplied before, or it is read
as a part of its side in the same way as its terms are. -/
theorem sameTerms_insert_iff
    {first second : String}
    {before after : List Token}
    {opening : String}
    (firstTokens : Token.scan first = before ++ .literal opening :: after)
    (secondTokens :
      Token.scan second = before ++ .literal "1" :: .times :: .literal opening :: after)
    (opens : opening.toList.head? = some '(')
    (order : PowerOrder) :
    SameTerms (canonicalTerms order first) (canonicalTerms order second) ↔
      Rejected order first ∧ Rejected order second ∨
        ∀ (enclosure : Group.Enclosure) (rest : List Token), enclosure.WellFormed →
          .literal opening :: after = enclosure.tokens ++ rest →
            Group.Multiplied before rest ∨ Group.ReadsAlike before enclosure := by
  rw [sameTerms_iff, rejected_iff, rejected_iff]
  have insert : ∀ (enclosure : Group.Enclosure) (rest : List Token), enclosure.WellFormed →
      .literal opening :: after = enclosure.tokens ++ rest →
        (textWorth? first = textWorth? second ↔
          textWorth? first = none ∧ textWorth? second = none ∨
            (Group.Multiplied before rest ∨ Group.ReadsAlike before enclosure)) := by
    intro enclosure rest wellFormed tokens
    rw [tokens] at firstTokens secondTokens
    exact Group.textWorth?_insert_iff firstTokens secondTokens wellFormed
  constructor
  · intro same
    by_cases nothing : textWorth? first = none ∧ textWorth? second = none
    · exact .inl nothing
    · right
      intro enclosure rest wellFormed tokens
      exact ((insert enclosure rest wellFormed tokens).mp same).resolve_left nothing
  · rintro (nothing | alike)
    · exact nothing.1.trans nothing.2.symm
    · by_cases written : ∃ (enclosure : Group.Enclosure) (rest : List Token),
          enclosure.WellFormed ∧ .literal opening :: after = enclosure.tokens ++ rest
      · obtain ⟨enclosure, rest, wellFormed, tokens⟩ := written
        exact (insert enclosure rest wellFormed tokens).mpr
          (.inr (alike enclosure rest wellFormed tokens))
      · obtain ⟨inner, chars⟩ := List.head?_eq_some_iff.mp opens
        obtain ⟨firstNone, secondNone⟩ := Group.textWorth?_eq_none_of_not_written firstTokens
          secondTokens chars written
        exact firstNone.trans secondNone.symm

/-- In `0 = ( - y )` the sign of `y` is turned round although the whole group is
subtracted, so the group does not mean the same with a factor of one. -/
theorem not_sameTerms_insert :
    Token.scan "0 = ( - y )" = [.literal "0", .equals, .literal "(", .sign .minus, .literal "y",
        .literal ")"] ∧
      Token.scan "0 = 1 * ( - y )" = [.literal "0", .equals, .literal "1", .times, .literal "(",
        .sign .minus, .literal "y", .literal ")"] ∧
      ¬SameTerms (canonicalTerms .textual "0 = ( - y )")
        (canonicalTerms .textual "0 = 1 * ( - y )") := by
  have firstTokens : Token.scan "0 = ( - y )" = [.literal "0", .equals] ++
      .literal "(" :: [.sign .minus, .literal "y", .literal ")"] := by rfl
  have secondTokens : Token.scan "0 = 1 * ( - y )" = [.literal "0", .equals] ++
      .literal "1" :: .times :: .literal "(" ::
        [.sign .minus, .literal "y", .literal ")"] := by rfl
  refine ⟨firstTokens, secondTokens, ?_⟩
  rw [sameTerms_insert_iff firstTokens secondTokens rfl]
  rintro (⟨rejected, _⟩ | alike)
  · exact rejected "-y = 0" (by rfl)
  · have piece : Group.IsPiece [] :=
      ⟨List.forall_mem_nil _, List.forall_mem_nil _⟩
    have letter : (Token.literal "y").IsWord :=
      Token.isWord_literal (by decide) (Text.solid_singleton rfl) (by simp)
    have isInner : ∀ token ∈ [Token.sign .minus, .literal "y"], Group.IsInner token :=
      List.forall_mem_cons.mpr ⟨⟨nofun, rfl, Token.isWord_sign .minus⟩,
        List.forall_mem_singleton.mpr ⟨nofun, by decide, letter⟩⟩
    rcases alike (.several [] [.sign .minus, .literal "y"] []) [] ⟨piece, isInner, piece⟩ rfl with
      (times | minus | factor) | readsAlike
    · exact absurd times (by decide)
    · exact absurd minus (by decide)
    · exact absurd factor (by decide)
    · have zero := readsAlike.onRight (by decide) (by simp) .minus rfl ⟨.minus, none, ⟨"y", ""⟩⟩ []
        (by rfl)
      exact absurd zero (by decide)

end CanonicalEquation
