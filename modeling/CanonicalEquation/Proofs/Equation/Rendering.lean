import CanonicalEquation.Proofs.Equation.CanonicalTerms

/-!
# Reading written equations back

A written equation is a list of tokens with single spaces between them, and
these tokens are scanned again.  Its left-hand side is read as the terms that
were written, each with its sign, its key and its magnitude, so canonical terms
are read back from what they are written as.
-/

namespace CanonicalEquation

/-! ## Reading terms back -/

namespace Term

/-- The sign that is attached to the first term of a side. -/
def attachedSign (term : Term) : Option Sign :=
  if term.sign = .minus then some .minus else none

theorem getD_attachedSign (term : Term) : term.attachedSign.getD .plus = term.sign := by
  unfold attachedSign
  cases term.sign <;> rfl

/-- Whether terms have the same sign, key and magnitude: they differ at most in
whether a coefficient of one is written. -/
def Equivalent (first second : Term) : Prop :=
  first.sign = second.sign ∧ first.key = second.key ∧ first.magnitude = second.magnitude

/-- A term as it is read when it has been written. -/
def reread (term : Term) : Term :=
  term.monomial.toTerm term.sign

theorem reread_eq
    {term : Term}
    (wellFormed : term.WellFormed) :
    term.reread.key = term.key ∧ term.reread.value = term.value := by
  obtain ⟨key, magnitude⟩ := toTerm_monomial wellFormed term.sign
  refine ⟨key, ?_⟩
  rw [reread, value, value, magnitude]
  rfl

/-- Terms are read with the keys and the values that they had. -/
theorem map_reread
    {terms : List Term}
    (wellFormed : ∀ term ∈ terms, term.WellFormed) :
    (terms.map reread).map (fun term => (term.key, term.value)) =
      terms.map fun term => (term.key, term.value) := by
  rw [List.map_map]
  apply List.map_congr_left
  intro term member
  obtain ⟨key, value⟩ := reread_eq (wellFormed term member)
  rw [Function.comp_apply, key, value]

/-- A coefficient that is not written counts as one, so only a written one must
be checked. -/
theorem wellFormed_of_coefficient
    {term : Term}
    (keyWellFormed : term.key.WellFormed)
    (coefficientFinite : ∀ magnitude, term.coefficient = some magnitude →
      0 ≤ magnitude ∧ ∃ twos fives : Nat, magnitude.den = 2 ^ twos * 5 ^ fives) :
    term.WellFormed := by
  have magnitude : 0 ≤ term.magnitude ∧ Decimal.IsFinite term.magnitude := by
    rw [Term.magnitude]
    cases written : term.coefficient with
    | none => exact ⟨zero_le_one, Decimal.IsFinite.one⟩
    | some magnitude =>
        obtain ⟨nonneg, factors⟩ := coefficientFinite magnitude written
        exact ⟨nonneg, Decimal.isFinite_iff_den_eq.mpr factors⟩
  exact ⟨keyWellFormed, magnitude.1, magnitude.2⟩

theorem unsignedText_eq
    {term : Term}
    (wellFormed : term.WellFormed) : term.unsignedText = String.ofList term.monomial.chars := by
  rw [chars_monomial wellFormed, String.ofList_toList]

theorem leadingText_eq
    {term : Term}
    (wellFormed : term.WellFormed) :
    term.leadingText = String.ofList (signChars term.attachedSign ++ term.monomial.chars) := by
  rw [String.ofList_append, ← unsignedText_eq wellFormed, leadingText, attachedSign]
  cases term.sign with
  | plus => exact (String.empty_append).symm
  | minus => rfl

end Term

/-! ## The tokens of a written equation -/

namespace Equation

/-- The tokens that the terms of a side are written as. -/
def sideTokens : List Term → List Token
  | [] => [.literal "0"]
  | first :: rest => .literal first.leadingText :: rest.flatMap Group.followingTokens

/-- The texts of a side are those of groups of its tokens: a later term is one
piece of text, but two tokens. -/
theorem exists_groups_sideTexts (terms : List Term) :
    ∃ groups : List (List Token), (∀ group ∈ groups, group ≠ []) ∧
      groups.flatten = sideTokens terms ∧ sideTexts terms = groups.map Token.spacedText := by
  have followingTexts : ∀ rest : List Term,
      rest.map Term.followingText = (rest.map Group.followingTokens).map Token.spacedText := by
    intro rest
    rw [List.map_map]
    apply List.map_congr_left
    intro term _
    change _ = " ".intercalate [term.sign.text, term.unsignedText]
    rw [String.intercalate_cons_cons, String.intercalate_singleton]
    rfl
  cases terms with
  | nil => exact ⟨[[.literal "0"]], by simp, rfl, rfl⟩
  | cons first rest =>
      refine ⟨[.literal first.leadingText] :: rest.map Group.followingTokens, ?_, ?_, ?_⟩
      · exact List.forall_mem_cons.mpr ⟨List.cons_ne_nil _ _,
          List.forall_mem_map.mpr fun term _ => List.cons_ne_nil _ _⟩
      · rw [List.flatten_cons, ← List.flatMap_def]
        rfl
      · rw [sideTexts, followingTexts]
        rfl

/-- A written equation is its tokens with single spaces between them. -/
theorem render_eq_spacedText
    (terms : List Term)
    (tail : List Token) :
    render terms tail = Token.spacedText (sideTokens terms ++ tail) := by
  obtain ⟨groups, nonempty, flatten, texts⟩ := exists_groups_sideTexts terms
  cases tail with
  | nil =>
      rw [render, List.isEmpty_nil, if_pos rfl, List.append_nil, List.append_nil, texts,
        Token.spacedText_flatten nonempty, flatten]
  | cons token others =>
      have allNonempty : ∀ group ∈ groups ++ [token :: others], group ≠ [] :=
        List.forall_mem_append.mpr
          ⟨nonempty, List.forall_mem_singleton.mpr (List.cons_ne_nil _ _)⟩
      have allTexts : sideTexts terms ++ [Token.spacedText (token :: others)] =
          (groups ++ [token :: others]).map Token.spacedText := by
        rw [texts, List.map_append]
        rfl
      rw [render, List.isEmpty_cons, if_neg Bool.false_ne_true, allTexts,
        Token.spacedText_flatten allNonempty, List.flatten_append, List.flatten_singleton, flatten]

/-- A token that stands for a word and has no parenthesis. -/
def IsPlainWord (token : Token) : Prop :=
  token.IsWord ∧ token.hasParenthesis = false

theorem isPlainWord_zero : IsPlainWord (.literal "0") :=
  ⟨Token.isWord_literal (by decide) (Text.solid_singleton rfl) (by simp), by decide⟩

theorem isPlainWord_written
    (sign : Option Sign)
    {monomial : Monomial}
    (wellFormed : monomial.WellFormed) :
    IsPlainWord (.literal (String.ofList (Term.signChars sign ++ monomial.chars))) :=
  ⟨Side.isWord_written sign wellFormed, Side.hasParenthesis_written sign wellFormed⟩

theorem isPlainWord_sideTokens
    {terms : List Term}
    (wellFormed : ∀ term ∈ terms, term.WellFormed) :
    ∀ token ∈ sideTokens terms, IsPlainWord token := by
  cases terms with
  | nil => exact List.forall_mem_singleton.mpr isPlainWord_zero
  | cons first rest =>
      obtain ⟨firstWellFormed, restWellFormed⟩ := List.forall_mem_cons.mp wellFormed
      refine List.forall_mem_cons.mpr ⟨?_, fun token member => ?_⟩
      · rw [Term.leadingText_eq firstWellFormed]
        exact isPlainWord_written _ (Term.wellFormed_monomial firstWellFormed).1
      · obtain ⟨term, inRest, inTokens⟩ := List.mem_flatMap.mp member
        have termWellFormed := restWellFormed term inRest
        rw [Group.followingTokens, Term.unsignedText_eq termWellFormed] at inTokens
        rcases List.mem_cons.mp inTokens with rfl | inLast
        · exact ⟨Token.isWord_sign term.sign, rfl⟩
        · obtain rfl := List.mem_singleton.mp inLast
          exact isPlainWord_written none (Term.wellFormed_monomial termWellFormed).1

theorem isPlainWord_zeroTail : ∀ token ∈ zeroTail, IsPlainWord token :=
  List.forall_mem_cons.mpr
    ⟨⟨Token.isWord_equals, rfl⟩, List.forall_mem_singleton.mpr isPlainWord_zero⟩

theorem scan_render
    {terms : List Term}
    (wellFormed : ∀ term ∈ terms, term.WellFormed)
    {tail : List Token}
    (plainTail : ∀ token ∈ tail, IsPlainWord token) :
    Token.scan (render terms tail) = sideTokens terms ++ tail := by
  rw [render_eq_spacedText]
  exact Token.scan_spacedText (List.forall_mem_append.mpr
    ⟨fun token member => (isPlainWord_sideTokens wellFormed token member).1,
      fun token member => (plainTail token member).1⟩)

/-! ## Reading the left-hand side -/

/-- A literal `0` is read as a term of value zero. -/
theorem exists_zero
    {reading : Side.Reading}
    (ready : reading ≠ .afterTerm) :
    ∃ zero : Term, zero.value = 0 ∧
      Side.read? reading [.literal "0"] = some ([zero], .afterTerm) := by
  have wellFormed : Monomial.WellFormed ⟨some Decimal.zeroNumeral, [], []⟩ :=
    Monomial.wellFormed_constant (Numeral.wellFormed_digit rfl)
  have reads := Side.read?_written ready none wellFormed []
  refine ⟨_, ?_, reads⟩
  have zero : Decimal.zeroNumeral.value = 0 := by decide +kernel
  rw [Term.value, Monomial.toTerm_magnitude, Option.map_some, Option.getD_some, zero]
  cases reading.sign * (none : Option Sign).getD .plus <;> rfl

theorem read?_flatMap_followingTokens
    {terms : List Term}
    (wellFormed : ∀ term ∈ terms, term.WellFormed) :
    Side.read? .afterTerm (terms.flatMap Group.followingTokens) =
      some (terms.map Term.reread, .afterTerm) := by
  induction terms with
  | nil => rfl
  | cons first rest inductionHypothesis =>
      obtain ⟨firstWellFormed, restWellFormed⟩ := List.forall_mem_cons.mp wellFormed
      have reads := Side.read?_written (Side.Reading.signed_ne_afterTerm (.plus * first.sign)) none
        (Term.wellFormed_monomial firstWellFormed).1 (rest.flatMap Group.followingTokens)
      rw [List.flatMap_cons, Group.followingTokens, List.cons_append, List.cons_append,
        List.nil_append, Side.read?_sign, Term.unsignedText_eq firstWellFormed]
      refine reads.trans ?_
      rw [inductionHypothesis restWellFormed, Option.map_some, Option.getD_none, Sign.mul_plus]
      rfl

/-- A written side with terms is read as these terms. -/
theorem read?_sideTokens_cons
    {first : Term}
    {rest : List Term}
    (wellFormed : ∀ term ∈ first :: rest, term.WellFormed) :
    Side.read? .start (sideTokens (first :: rest)) =
      some ((first :: rest).map Term.reread, .afterTerm) := by
  obtain ⟨firstWellFormed, restWellFormed⟩ := List.forall_mem_cons.mp wellFormed
  rw [sideTokens, Term.leadingText_eq firstWellFormed,
    Side.read?_written Side.Reading.start_ne_afterTerm first.attachedSign
      (Term.wellFormed_monomial firstWellFormed).1,
    read?_flatMap_followingTokens restWellFormed, Option.map_some, Term.getD_attachedSign]
  rfl

/-- A written side is read as the terms that were written, and possibly a term
of value zero. -/
theorem exists_read?_sideTokens
    {terms : List Term}
    (wellFormed : ∀ term ∈ terms, term.WellFormed) :
    ∃ zeros : List Term, (∀ term ∈ zeros, term.value = 0) ∧
      Side.read? .start (sideTokens terms) =
        some (terms.map Term.reread ++ zeros, .afterTerm) := by
  cases terms with
  | nil =>
      obtain ⟨zero, isZero, reads⟩ := exists_zero Side.Reading.start_ne_afterTerm
      exact ⟨[zero], List.forall_mem_singleton.mpr isZero, reads⟩
  | cons first rest =>
      refine ⟨[], List.forall_mem_nil _, ?_⟩
      rw [read?_sideTokens_cons wellFormed, List.append_nil]

theorem equals_notMem_sideTokens
    {terms : List Term}
    (wellFormed : ∀ term ∈ terms, term.WellFormed) : .equals ∉ sideTokens terms := by
  obtain ⟨_, _, reads⟩ := exists_read?_sideTokens wellFormed
  exact Side.equals_notMem_of_read? reads

/-- With `= 0` moved to the left, a written side is read as the terms that were
written, and terms of value zero. -/
theorem exists_terms_sideTokens
    {terms : List Term}
    (wellFormed : ∀ term ∈ terms, term.WellFormed) :
    ∃ zeros : List Term, (∀ term ∈ zeros, term.value = 0) ∧
      Side.terms (sideTokens terms ++ subtract [.literal "0"]) =
        .ok (terms.map Term.reread ++ zeros) := by
  obtain ⟨zeros, areZero, reads⟩ := exists_read?_sideTokens wellFormed
  obtain ⟨zero, isZero, readsZero⟩ :=
    exists_zero (Side.Reading.signed_ne_afterTerm (.plus * .minus))
  refine ⟨zeros ++ [zero],
    List.forall_mem_append.mpr ⟨areZero, List.forall_mem_singleton.mpr isZero⟩, ?_⟩
  refine Side.terms_eq_ok_iff.mpr ⟨.afterTerm, ?_, rfl⟩
  have readsTail : Side.read? .afterTerm (subtract [.literal "0"]) = some ([zero], .afterTerm) :=
    (Side.read?_sign _ _ _).trans readsZero
  rw [Side.read?_append, reads, Option.bind_some, readsTail, Option.map_some, List.append_assoc]

/-! ## Terms are read back -/

/-- Written terms are read again with their signs, keys and magnitudes, on their
own and in front of `= 0`. -/
theorem exists_terms_scan_render
    {terms : List Term}
    (nonempty : terms ≠ [])
    (keysWellFormed : ∀ term ∈ terms, term.key.WellFormed)
    (coefficientsFinite : ∀ term ∈ terms, ∀ magnitude, term.coefficient = some magnitude →
      0 ≤ magnitude ∧ ∃ twos fives : Nat, magnitude.den = 2 ^ twos * 5 ^ fives) :
    ∃ found, Side.terms (Token.scan (render terms [])) = .ok found ∧
      List.Forall₂ Term.Equivalent found terms ∧
      Side.terms ((Token.scan (render terms zeroTail)).takeWhile (· != .equals)) = .ok found ∧
      (Token.scan (render terms zeroTail)).dropWhile (· != .equals) = zeroTail := by
  have wellFormed : ∀ term ∈ terms, term.WellFormed := fun term member =>
    Term.wellFormed_of_coefficient (keysWellFormed term member) (coefficientsFinite term member)
  have sideRead : Side.terms (sideTokens terms) = .ok (terms.map Term.reread) := by
    obtain ⟨first, rest, rfl⟩ := List.exists_cons_of_ne_nil nonempty
    exact Side.terms_eq_ok_iff.mpr ⟨.afterTerm, read?_sideTokens_cons wellFormed, rfl⟩
  have leftNone := equals_notMem_sideTokens wellFormed
  refine ⟨terms.map Term.reread, ?_, ?_, ?_, ?_⟩
  · rw [scan_render wellFormed (List.forall_mem_nil _), List.append_nil]
    exact sideRead
  · rw [List.forall₂_map_left_iff, List.forall₂_same]
    intro term member
    obtain ⟨key, magnitude⟩ := Term.toTerm_monomial (wellFormed term member) term.sign
    exact ⟨rfl, key, magnitude⟩
  · rw [scan_render wellFormed isPlainWord_zeroTail, zeroTail, takeWhile_ne_equals leftNone]
    exact sideRead
  · rw [scan_render wellFormed isPlainWord_zeroTail, zeroTail, dropWhile_ne_equals leftNone]

theorem exists_terms_scan_render_mixed :
    let terms : List Term := [⟨.minus, none, ⟨"x", "^02"⟩⟩, ⟨.plus, none, ⟨"", ""⟩⟩,
      ⟨.minus, some 1, ⟨"yz", ""⟩⟩, ⟨.plus, some (1 / 8), ⟨"", ""⟩⟩, ⟨.minus, some 0, ⟨"x", "^0"⟩⟩]
    terms ≠ [] ∧ (∀ term ∈ terms, term.key.WellFormed) ∧
      (∀ term ∈ terms, ∀ magnitude, term.coefficient = some magnitude →
        0 ≤ magnitude ∧ ∃ twos fives : Nat, magnitude.den = 2 ^ twos * 5 ^ fives) ∧
      ∃ found, Side.terms (Token.scan (render terms [])) = .ok found ∧
        List.Forall₂ Term.Equivalent found terms ∧
        Side.terms ((Token.scan (render terms zeroTail)).takeWhile (· != .equals)) = .ok found ∧
        (Token.scan (render terms zeroTail)).dropWhile (· != .equals) = zeroTail := by
  intro terms
  have nonempty : terms ≠ [] := List.cons_ne_nil _ _
  have keysWellFormed : ∀ term ∈ terms, term.key.WellFormed := by
    have constant : Key.WellFormed ⟨"", ""⟩ :=
      ⟨[], [], rfl, List.forall_mem_nil _, List.forall_mem_nil _, fun _ => rfl⟩
    simp only [terms, List.forall_mem_cons]
    exact ⟨⟨['x'], ['0', '2'], rfl, List.all_eq_true.mp rfl, List.all_eq_true.mp rfl, nofun⟩,
      constant, ⟨['y', 'z'], [], rfl, List.all_eq_true.mp rfl, List.forall_mem_nil _, nofun⟩,
      constant, ⟨['x'], ['0'], rfl, List.all_eq_true.mp rfl, List.all_eq_true.mp rfl, nofun⟩,
      List.forall_mem_nil _⟩
  have coefficientsFinite : ∀ term ∈ terms, ∀ magnitude, term.coefficient = some magnitude →
      0 ≤ magnitude ∧ ∃ twos fives : Nat, magnitude.den = 2 ^ twos * 5 ^ fives := by
    have isFinite : ∀ coefficient : Rat, 0 ≤ coefficient →
        (∃ twos fives : Nat, coefficient.den = 2 ^ twos * 5 ^ fives) →
        ∀ magnitude, some coefficient = some magnitude →
          0 ≤ magnitude ∧ ∃ twos fives : Nat, magnitude.den = 2 ^ twos * 5 ^ fives := by
      rintro coefficient nonneg factors magnitude same
      cases same
      exact ⟨nonneg, factors⟩
    simp only [terms, List.forall_mem_cons]
    exact ⟨nofun, nofun, isFinite 1 zero_le_one ⟨0, 0, rfl⟩,
      isFinite (1 / 8) (by norm_num) ⟨3, 0, by decide +kernel⟩, isFinite 0 le_rfl ⟨0, 0, rfl⟩,
      List.forall_mem_nil _⟩
  exact ⟨nonempty, keysWellFormed, coefficientsFinite,
    exists_terms_scan_render nonempty keysWellFormed coefficientsFinite⟩

end Equation

/-! ## Canonical terms are read back -/

/-- Canonical terms are the canonical terms of the equation that they are
written as. -/
theorem canonicalTerms_render
    {order : PowerOrder}
    {terms : List Term}
    (canonical : IsCanonical order terms) :
    canonicalTerms order (Equation.render terms Equation.zeroTail) = .ok terms := by
  obtain ⟨zeros, areZero, sideRead⟩ := Equation.exists_terms_sideTokens canonical.wellFormed
  have plainWords := List.forall_mem_append.mpr
    ⟨Equation.isPlainWord_sideTokens canonical.wellFormed, Equation.isPlainWord_zeroTail⟩
  have leftNone := Equation.equals_notMem_sideTokens canonical.wellFormed
  refine canonicalTerms_eq_ok_iff.mpr ⟨Equation.sideTokens terms ++ Equation.zeroTail,
    ⟨Equation.sideTokens terms, [.literal "0"]⟩, _, ?_, ?_, sideRead, ?_⟩
  · rw [Equation.scan_render canonical.wellFormed Equation.isPlainWord_zeroTail]
    exact Group.openAll_plain fun token member => (plainWords token member).2
  · exact Equation.ofTokens_append_equals leftNone (by decide) (List.cons_ne_nil _ _)
  · have same : (terms.map Term.reread).map (fun term => (term.key, term.value)) =
        terms.map fun term => (term.key, term.value) :=
      Term.map_reread canonical.wellFormed
    rw [Tally.terms_ofTerms_append canonical.distinct canonical.made same areZero,
      PowerOrder.sort_eq_self canonical.sorted]

end CanonicalEquation
