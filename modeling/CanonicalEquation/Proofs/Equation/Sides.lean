import CanonicalEquation.CanonicalForm
import CanonicalEquation.Proofs.Equation.Side

/-!
# What an equation is worth

Tokens are cut into two sides exactly when they are two lists without an
equality sign with one between them, the second of them not empty.  With the
right-hand side moved to the left, the sum of an equation is the tally of one
side, so the equation is worth what this side is worth.
-/

namespace CanonicalEquation
namespace Equation

@[simp] theorem turnSign_sign (sign : Sign) : turnSign (.sign sign) = .sign (-sign) := rfl

@[simp] theorem turnSign_literal (text : String) : turnSign (.literal text) = .literal text := rfl

theorem turnSign_eq_equals_iff {token : Token} : turnSign token = .equals ↔ token = .equals := by
  cases token <;> simp [turnSign]

/-- Turning a sign round makes words from words. -/
theorem isWord_turnSign
    {token : Token}
    (isWord : token.IsWord) : (turnSign token).IsWord := by
  cases token with
  | sign sign => exact Token.isWord_sign (-sign)
  | equals => exact isWord
  | times => exact isWord
  | literal text => exact isWord

theorem subtract_sign
    (sign : Sign)
    (rest : List Token) : subtract (.sign sign :: rest) = .sign (-sign) :: rest.map turnSign := rfl

theorem subtract_literal
    (text : String)
    (rest : List Token) :
    subtract (.literal text :: rest) =
      .sign .minus :: .literal text :: rest.map turnSign := rfl

theorem subtract_append
    {former : List Token}
    (nonempty : former ≠ [])
    (latter : List Token) :
    subtract (former ++ latter) = subtract former ++ latter.map turnSign := by
  obtain ⟨first, rest, rfl⟩ := List.exists_cons_of_ne_nil nonempty
  cases first <;> simp [subtract, Token.isSign]

/-- A side is subtracted by turning all its signs round, with a `-` put in front
if it does not begin with a sign. -/
theorem subtract_cases (side : List Token) :
    (∃ sign rest, side = .sign sign :: rest ∧
        subtract side = .sign (-sign) :: rest.map turnSign) ∨
      subtract side = .sign .minus :: side.map turnSign := by
  cases side with
  | nil => exact .inr rfl
  | cons first rest =>
      cases first with
      | sign sign => exact .inl ⟨sign, rest, rfl, rfl⟩
      | equals => exact .inr rfl
      | times => exact .inr rfl
      | literal text => exact .inr rfl

/-- A subtracted side has the turned tokens of the side, and possibly a `-`. -/
theorem forall_mem_subtract
    {property : Token → Prop}
    (minus : property (.sign .minus))
    {side : List Token}
    (turned : ∀ token ∈ side, property (turnSign token)) :
    ∀ token ∈ subtract side, property token := by
  have all : ∀ token ∈ side.map turnSign, property token := List.forall_mem_map.mpr turned
  unfold subtract
  split
  · exact all
  · exact List.forall_mem_cons.mpr ⟨minus, all⟩

/-- Moving everything to the left makes words from words. -/
theorem isWord_of_mem_append_subtract
    {left right : List Token}
    (leftWords : ∀ token ∈ left, token.IsWord)
    (rightWords : ∀ token ∈ right, token.IsWord) :
    ∀ token ∈ left ++ subtract right, token.IsWord :=
  List.forall_mem_append.mpr ⟨leftWords, forall_mem_subtract (Token.isWord_sign .minus)
    fun token member => isWord_turnSign (rightWords token member)⟩

theorem equals_notMem_subtract
    {side : List Token}
    (notMember : .equals ∉ side) : .equals ∉ subtract side := fun member =>
  @forall_mem_subtract (· ≠ .equals) nofun side (fun _ inSide equal =>
    notMember (turnSign_eq_equals_iff.mp equal ▸ inSide)) .equals member rfl

/-- Turns round a sign that stands alone, if it is behind a `-`. -/
def turnBy (sign : Sign) (token : Token) : Token :=
  match sign with
  | .plus => token
  | .minus => turnSign token

@[simp] theorem turnBy_sign
    (sign mark : Sign) : turnBy sign (.sign mark) = .sign (sign * mark) := by
  cases sign <;> rfl

@[simp] theorem turnBy_literal
    (sign : Sign)
    (text : String) : turnBy sign (.literal text) = .literal text := by
  cases sign <;> rfl

theorem map_turnBy_plus (side : List Token) : side.map (turnBy .plus) = side :=
  List.map_id side

/-! ## Cutting at the equality sign -/

theorem ne_equals_of_notMem
    {side : List Token}
    (notMember : .equals ∉ side) : ∀ token ∈ side, (token != .equals) = true := by
  intro token member
  exact bne_iff_ne.mpr fun equal => notMember (equal ▸ member)

theorem takeWhile_ne_equals
    {left : List Token}
    (notMember : .equals ∉ left)
    (right : List Token) :
    (left ++ .equals :: right).takeWhile (· != .equals) = left := by
  rw [List.takeWhile_append_of_pos (ne_equals_of_notMem notMember), List.takeWhile_cons_of_neg
    (by simp), List.append_nil]

theorem dropWhile_ne_equals
    {left : List Token}
    (notMember : .equals ∉ left)
    (right : List Token) :
    (left ++ .equals :: right).dropWhile (· != .equals) = .equals :: right := by
  rw [List.dropWhile_append_of_pos (ne_equals_of_notMem notMember), List.dropWhile_cons_of_neg
    (by simp)]

theorem count_equals
    {left : List Token}
    (notMember : .equals ∉ left)
    (right : List Token) :
    (left ++ .equals :: right).count .equals = right.count .equals + 1 := by
  rw [List.count_append, List.count_eq_zero.mpr notMember, List.count_cons_self, zero_add]

theorem ofTokens_append_equals
    {left right : List Token}
    (leftNone : .equals ∉ left)
    (rightNone : .equals ∉ right)
    (nonempty : right ≠ []) :
    ofTokens (left ++ .equals :: right) = .ok ⟨left, right⟩ := by
  unfold ofTokens
  rw [count_equals leftNone, List.count_eq_zero.mpr rightNone, zero_add,
    dropWhile_ne_equals leftNone, takeWhile_ne_equals leftNone, List.tail_cons]
  simp [nonempty]

/-- An equation is cut at its only equality sign, and has something behind
it. -/
theorem ofTokens_eq_ok_iff
    {tokens : List Token}
    {equation : Equation} :
    ofTokens tokens = .ok equation ↔
      tokens = equation.left ++ .equals :: equation.right ∧
        .equals ∉ equation.left ∧ .equals ∉ equation.right ∧ equation.right ≠ [] := by
  constructor
  · intro cut
    have member : .equals ∈ tokens := by
      by_contra notMember
      rw [ofTokens, List.count_eq_zero.mpr notMember] at cut
      exact absurd cut (by simp)
    obtain ⟨left, right, rfl, leftNone⟩ := List.eq_append_cons_of_mem member
    by_cases rightNone : .equals ∈ right
    · have two : ∃ count, right.count .equals = count + 1 :=
        ⟨right.count .equals - 1, (Nat.sub_add_cancel (List.count_pos_iff.mpr rightNone)).symm⟩
      obtain ⟨count, equal⟩ := two
      rw [ofTokens, count_equals leftNone, equal] at cut
      exact absurd cut (by simp)
    · by_cases empty : right = []
      · subst empty
        rw [ofTokens, count_equals leftNone, dropWhile_ne_equals leftNone] at cut
        exact absurd cut (by simp)
      · rw [ofTokens_append_equals leftNone rightNone empty] at cut
        cases cut
        exact ⟨rfl, leftNone, rightNone, empty⟩
  · obtain ⟨left, right⟩ := equation
    rintro ⟨rfl, leftNone, rightNone, nonempty⟩
    exact ofTokens_append_equals leftNone rightNone nonempty

theorem getLast?_eq_equals_iff
    {right : List Token}
    (rightNone : .equals ∉ right)
    (left : List Token) :
    (left ++ .equals :: right).getLast? = some .equals ↔ right = [] := by
  rcases List.eq_nil_or_concat right with rfl | ⟨former, token, rfl⟩
  · simp
  · have different : token ≠ .equals := by
      rintro rfl
      simp at rightNone
    rw [List.concat_eq_append, ← List.cons_append, ← List.append_assoc, List.getLast?_concat]
    simp [different]

/-- Tokens are not cut if they have no equality sign, nothing behind their only
one, or more than one. -/
theorem ofTokens_eq_error_iff
    {tokens : List Token}
    {error : Error} :
    ofTokens tokens = .error error ↔
      .incomplete = error ∧ (tokens.count .equals = 0 ∨
          tokens.count .equals = 1 ∧ tokens.getLast? = some .equals) ∨
        .tooManyEqualities (tokens.count .equals) = error ∧ 2 ≤ tokens.count .equals := by
  by_cases member : .equals ∈ tokens
  · obtain ⟨left, right, rfl, leftNone⟩ := List.eq_append_cons_of_mem member
    rw [ofTokens, count_equals leftNone]
    by_cases rightNone : .equals ∈ right
    · obtain ⟨count, equal⟩ := Nat.exists_eq_add_one_of_ne_zero
        (List.count_pos_iff.mpr rightNone).ne'
      rw [equal]
      simp
    · rw [List.count_eq_zero.mpr rightNone, dropWhile_ne_equals leftNone,
        getLast?_eq_equals_iff rightNone]
      by_cases empty : right = [] <;> simp [empty]
  · rw [ofTokens, List.count_eq_zero.mpr member]
    simp

/-! ## Moving everything to the left -/

/-- The sum of an equation with everything on its left-hand side is the tally
of that side. -/
theorem summed_zeroForm
    {equation : Equation}
    (leftNone : .equals ∉ equation.left)
    (rightNone : .equals ∉ equation.right) :
    SummedEquation.ofTokens equation.zeroForm =
      (Side.terms (equation.left ++ subtract equation.right)).map fun terms =>
        ⟨(Tally.ofTerms terms).terms, zeroTail⟩ := by
  have sideNone : .equals ∉ equation.left ++ subtract equation.right := by
    rw [List.mem_append, not_or]
    exact ⟨leftNone, equals_notMem_subtract rightNone⟩
  rw [SummedEquation.ofTokens, zeroForm, zeroTail, takeWhile_ne_equals sideNone,
    dropWhile_ne_equals sideNone, if_pos (by simp)]
  cases Side.terms (equation.left ++ subtract equation.right) <;> rfl

/-- What an equation is worth with its right-hand side moved to the left. -/
noncomputable def worth? (tokens : List Token) : Option Combination :=
  (ofTokens tokens).toOption.bind fun equation =>
    Side.worth? (equation.left ++ subtract equation.right)

theorem worth?_append_equals
    {left right : List Token}
    (leftNone : .equals ∉ left)
    (rightNone : .equals ∉ right)
    (nonempty : right ≠ []) :
    worth? (left ++ .equals :: right) = Side.worth? (left ++ subtract right) := by
  rw [worth?, ofTokens_append_equals leftNone rightNone nonempty]
  rfl

/-- An equation is worth what its left-hand side is worth and its subtracted
right-hand side behind that. -/
theorem worth?_eq_some
    {left right : List Token}
    (leftNone : .equals ∉ left)
    (rightNone : .equals ∉ right)
    (nonempty : right ≠ [])
    {leftWorth rightWorth : Combination}
    {reading : Side.Reading}
    (leftSum : Side.sum? .start left = some (leftWorth, reading))
    (rightSum : Side.sum? reading (subtract right) = some (rightWorth, .afterTerm)) :
    worth? (left ++ .equals :: right) = some (leftWorth + rightWorth) := by
  rw [worth?_append_equals leftNone rightNone nonempty, Side.worth?, Side.sum?_append, leftSum,
    Option.bind_some, rightSum, Option.map_some]
  rfl

/-! ## What tokens stand for -/

/-- Tokens that can be a side or a part of one, worth a combination on the
left-hand side and its opposite when they are moved from the right-hand side.
They may stand behind a term if they begin with a sign. -/
structure StandsFor
    (signed : Bool)
    (tokens : List Token)
    (worth : Combination) : Prop where
  nonempty : tokens ≠ []
  noEquals : .equals ∉ tokens
  begins : signed = true → ∃ sign rest, tokens = .sign sign :: rest
  onLeft : ∀ reading : Side.Reading, reading.sign = .plus →
    (reading = .afterTerm → signed = true) →
      Side.sum? reading tokens = some (worth, .afterTerm)
  onRight : ∀ reading : Side.Reading, reading.sign = .plus →
    Side.sum? reading (subtract tokens) = some (-worth, .afterTerm)

/-- Behind others, tokens that begin with a sign are subtracted on their own. -/
theorem StandsFor.subtract_append
    {tokens : List Token}
    {worth : Combination}
    (stands : StandsFor true tokens worth)
    {former : List Token}
    (nonempty : former ≠ []) :
    subtract (former ++ tokens) = subtract former ++ subtract tokens := by
  obtain ⟨sign, rest, rfl⟩ := stands.begins rfl
  rw [Equation.subtract_append nonempty]
  rfl

/-- Tokens that begin with a sign may be put behind others. -/
theorem StandsFor.append
    {signed : Bool}
    {former latter : List Token}
    {formerWorth latterWorth : Combination}
    (formerStands : StandsFor signed former formerWorth)
    (latterStands : StandsFor true latter latterWorth) :
    StandsFor signed (former ++ latter) (formerWorth + latterWorth) := by
  refine ⟨List.append_ne_nil_of_left_ne_nil formerStands.nonempty _, ?_, ?_, ?_, ?_⟩
  · rw [List.mem_append, not_or]
    exact ⟨formerStands.noEquals, latterStands.noEquals⟩
  · intro isSigned
    obtain ⟨first, others, begins⟩ := formerStands.begins isSigned
    exact ⟨first, others ++ latter, by rw [begins, List.cons_append]⟩
  · intro reading noSign ready
    rw [Side.sum?_append, formerStands.onLeft reading noSign ready, Option.bind_some,
      latterStands.onLeft .afterTerm rfl fun _ => rfl, Option.map_some]
  · intro reading noSign
    rw [latterStands.subtract_append formerStands.nonempty, Side.sum?_append,
      formerStands.onRight reading noSign, Option.bind_some, latterStands.onRight .afterTerm rfl,
      Option.map_some, neg_add]

/-- An equation without a left-hand side is worth the opposite of what its
right-hand side stands for. -/
theorem StandsFor.worth?_equals
    {signed : Bool}
    {right : List Token}
    {rightWorth : Combination}
    (stands : StandsFor signed right rightWorth) :
    worth? (.equals :: right) = some (-rightWorth) := by
  have isWorth := worth?_eq_some List.not_mem_nil stands.noEquals stands.nonempty
    (Side.sum?_nil .start) (stands.onRight .start rfl)
  rw [List.nil_append, zero_add] at isWorth
  exact isWorth

/-- An equation is worth what its left-hand side stands for, less what its
right-hand side stands for. -/
theorem StandsFor.worth?_append_equals
    {leftSigned rightSigned : Bool}
    {left right : List Token}
    {leftWorth rightWorth : Combination}
    (leftStands : StandsFor leftSigned left leftWorth)
    (rightStands : StandsFor rightSigned right rightWorth) :
    worth? (left ++ .equals :: right) = some (leftWorth - rightWorth) := by
  have leftSum := leftStands.onLeft .start rfl fun equal =>
    absurd equal Side.Reading.start_ne_afterTerm
  rw [sub_eq_add_neg]
  exact worth?_eq_some leftStands.noEquals rightStands.noEquals rightStands.nonempty leftSum
    (rightStands.onRight .afterTerm rfl)

/-- A written monomial stands for the term that it is. -/
theorem standsFor_literal
    (sign : Option Sign)
    {monomial : Monomial}
    (wellFormed : monomial.WellFormed) :
    StandsFor false [.literal (String.ofList (Term.signChars sign ++ monomial.chars))]
      (monomial.toTerm (sign.getD .plus)).combination := by
  refine ⟨List.cons_ne_nil _ _, by simp, nofun, ?_, ?_⟩
  · intro reading noSign ready
    have notAfterTerm : reading ≠ .afterTerm := fun afterTerm => by cases ready afterTerm
    rw [Side.sum?_written notAfterTerm sign wellFormed, Side.sum?_nil, Option.map_some, noSign,
      Sign.scale_plus, add_zero]
  · intro reading noSign
    rw [subtract_literal, Side.sum?_sign, List.map_nil,
      Side.sum?_written (Side.Reading.signed_ne_afterTerm _) sign wellFormed, Side.sum?_nil,
      Option.map_some, noSign, add_zero]
    rfl

/-- Tokens that begin with a sign are only turned round where they are moved to,
so they stand for what they are worth however they are turned. -/
theorem standsFor_of_sign
    {tokens : List Token}
    (begins : ∃ sign rest, tokens = .sign sign :: rest)
    (noEquals : .equals ∉ tokens)
    {worth : Combination}
    (turned : ∀ (turn : Sign) (reading : Side.Reading), reading.sign = .plus →
      Side.sum? reading (tokens.map (turnBy turn)) = some (turn.scale worth, .afterTerm)) :
    StandsFor true tokens worth := by
  obtain ⟨sign, rest, rfl⟩ := begins
  refine ⟨List.cons_ne_nil _ _, noEquals, fun _ => ⟨sign, rest, rfl⟩, ?_, ?_⟩
  · intro reading noSign _
    have onLeft := turned .plus reading noSign
    rw [map_turnBy_plus] at onLeft
    exact onLeft
  · intro reading noSign
    exact turned .minus reading noSign

/-- A written monomial behind a sign stands for the term that it is, behind that
sign. -/
theorem standsFor_signed_literal
    (mark : Sign)
    (sign : Option Sign)
    {monomial : Monomial}
    (wellFormed : monomial.WellFormed) :
    StandsFor true
      [.sign mark, .literal (String.ofList (Term.signChars sign ++ monomial.chars))]
      (mark.scale (monomial.toTerm (sign.getD .plus)).combination) := by
  apply standsFor_of_sign ⟨mark, _, rfl⟩ (by simp)
  intro turn reading noSign
  rw [List.map_cons, List.map_singleton, turnBy_sign, turnBy_literal, Side.sum?_sign,
    Side.sum?_written (Side.Reading.signed_ne_afterTerm _) sign wellFormed, Side.sum?_nil,
    Option.map_some, noSign, add_zero, ← Sign.scale_mul]
  rfl

end Equation
end CanonicalEquation
