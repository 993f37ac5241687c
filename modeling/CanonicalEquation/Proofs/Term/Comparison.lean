import CanonicalEquation.Proofs.Term.Ties

/-!
# Comparing terms

Terms may be compared whatever texts their keys hold.  A power that writes no
number counts as a missing one, and a missing one is below all others, so terms
are in a total preorder in either order of powers.  With powers compared as
texts only terms with the same key compare equal.
-/

namespace CanonicalEquation
namespace Key

/-- The power of a key is a caret with digits behind it. -/
def IsRaised (key : Key) : Prop :=
  ∃ digits : List Char, digits ≠ [] ∧ (∀ c ∈ digits, c.isDigit = true) ∧
    key.power = String.ofList ('^' :: digits)

/-- A caret with digits behind it writes a number. -/
theorem IsRaised.exists_exponent?
    {key : Key}
    (raised : key.IsRaised) : ∃ number, key.exponent? = some number := by
  obtain ⟨digits, nonempty, areDigits, power⟩ := raised
  have written : key.power = String.ofList (Monomial.powerChars digits) := by
    rw [power, Monomial.powerChars, if_neg (by simpa using nonempty)]
  refine ⟨Nat.ofDigitChars 10 digits 0, ?_⟩
  rw [exponent?_of_power areDigits written, if_neg nonempty]

/-- A missing power writes no number. -/
theorem exponent?_of_power_empty
    {key : Key}
    (missing : key.power = "") : key.exponent? = none := by
  rw [exponent?, missing]
  rfl

end Key

namespace PowerOrder

/-- A missing power is below every caret with digits behind it. -/
theorem orderingOfPowers_of_missing
    (order : PowerOrder)
    {bare raised : Key}
    (missing : bare.power = "")
    (isRaised : raised.IsRaised) : order.orderingOfPowers bare raised = .lt := by
  cases order with
  | textual =>
      obtain ⟨digits, _, _, power⟩ := isRaised
      have chars : raised.power.toList = '^' :: digits := by rw [power, String.toList_ofList]
      apply compare_lt_iff_lt.mpr
      rw [missing, String.lt_iff_toList_lt, chars]
      exact List.nil_lt_cons '^' digits
  | numerical =>
      obtain ⟨number, exponent⟩ := isRaised.exists_exponent?
      change compare bare.exponent? raised.exponent? = .lt
      rw [Key.exponent?_of_power_empty missing, exponent]
      rfl

/-- A term without a power stands behind every term with a written one. -/
theorem orderingOfTerms_of_missing
    (order : PowerOrder)
    {bare raised : Term}
    (missing : bare.key.power = "")
    (isRaised : raised.key.IsRaised) : order.orderingOfTerms bare raised = .gt := by
  have powers : order.orderingOfPowers raised.key bare.key = .gt := by
    have swap : order.orderingOfPowers raised.key bare.key =
        (order.orderingOfPowers bare.key raised.key).swap := Std.OrientedCmp.eq_swap
    rw [swap, order.orderingOfPowers_of_missing missing isRaised]
    rfl
  rw [orderingOfTerms, orderingOfKeys, powers]
  rfl

/-- With powers compared as texts, the terms that compare equal are those with
the same key. -/
theorem orderingOfTerms_textual_eq_iff
    {first second : Term} :
    textual.orderingOfTerms first second = .eq ↔ first.key = second.key := by
  have sameKey : ∀ former latter : Key,
      former = latter ↔ former.letters = latter.letters ∧ former.power = latter.power := by
    rintro ⟨formerLetters, formerPower⟩ ⟨latterLetters, latterPower⟩
    rw [Key.mk.injEq]
  rw [orderingOfTerms, orderingOfKeys, orderingOfPowers, Ordering.then_eq_eq, Ordering.then_eq_eq,
    compare_eq_iff_eq, compare_eq_iff_eq, compare_eq_iff_eq, sameKey]
  constructor
  · rintro ⟨samePower, _, sameLetters⟩
    exact ⟨sameLetters, samePower.symm⟩
  · rintro ⟨sameLetters, samePower⟩
    exact ⟨samePower.symm, by rw [sameLetters], sameLetters⟩

/-- In either order of powers, comparing terms is reflexive, turns round with its
arguments and is transitive, and a term without a power stands behind every term
whose power is a caret with digits behind it.  With powers compared as texts only
terms with the same key compare equal. -/
theorem orderingOfTerms_totalPreorder :
    (∀ order : PowerOrder,
      (∀ term, order.orderingOfTerms term term = .eq) ∧
      (∀ first second,
        order.orderingOfTerms second first = (order.orderingOfTerms first second).swap) ∧
      (∀ first second third, order.orderingOfTerms first second ≠ .gt →
        order.orderingOfTerms second third ≠ .gt → order.orderingOfTerms first third ≠ .gt) ∧
      ∀ bare raised : Term, bare.key.power = "" → raised.key.IsRaised →
        order.orderingOfTerms bare raised = .gt) ∧
    ∀ first second : Term,
      textual.orderingOfTerms first second = .eq ↔ first.key = second.key := by
  refine ⟨fun order => ⟨fun term => Std.ReflCmp.compare_self,
    fun first second => Std.OrientedCmp.eq_swap, ?_,
    fun bare raised => order.orderingOfTerms_of_missing⟩,
    fun first second => orderingOfTerms_textual_eq_iff⟩
  intro first second third former latter
  rw [ne_eq, ← Ordering.isLE_iff_ne_gt] at former latter ⊢
  exact Std.TransCmp.isLE_trans former latter

theorem orderingOfTerms_totalPreorder_unwritten :
    let raised : Term := ⟨.plus, none, ⟨"x", "^007"⟩⟩
    let unwritten : Term := ⟨.minus, some 2, ⟨"xyz", "^two"⟩⟩
    let short : Term := ⟨.plus, none, ⟨"ab", "3"⟩⟩
    let bare : Term := ⟨.plus, none, ⟨"y", ""⟩⟩
    (numerical.orderingOfTerms raised unwritten ≠ .gt ∧
      numerical.orderingOfTerms unwritten short ≠ .gt ∧
      numerical.orderingOfTerms raised short ≠ .gt) ∧
    bare.key.power = "" ∧ raised.key.IsRaised ∧ numerical.orderingOfTerms bare raised = .gt := by
  intro raised unwritten short bare
  have isRaised : raised.key.IsRaised :=
    ⟨['0', '0', '7'], List.cons_ne_nil _ _, List.all_eq_true.mp rfl, rfl⟩
  have former : numerical.orderingOfTerms raised unwritten ≠ .gt := by decide +kernel
  have latter : numerical.orderingOfTerms unwritten short ≠ .gt := by decide +kernel
  obtain ⟨_, _, transitive, behind⟩ := orderingOfTerms_totalPreorder.1 numerical
  exact ⟨⟨former, latter, transitive raised unwritten short former latter⟩,
    rfl, isRaised, behind bare raised rfl isRaised⟩

end PowerOrder
end CanonicalEquation
