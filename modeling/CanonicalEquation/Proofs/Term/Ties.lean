import CanonicalEquation.Proofs.Term.Order
import CanonicalEquation.Proofs.Term.Reading

/-!
# Terms that tie

With powers compared as numbers, different keys may compare equal: those with
the same letters whose exponents differ in zeros in front only.  Sorting leaves
such terms in the order in which they stood, and that is all that it keeps of
the order of its terms.
-/

namespace CanonicalEquation
namespace Key

/-- The keys whose power can be written: none, or a caret with digits. -/
def HasWrittenPower (key : Key) : Prop :=
  ∃ exponent : List Char, (∀ c ∈ exponent, c.isDigit = true) ∧
    key.power = String.ofList (Monomial.powerChars exponent)

theorem WellFormed.hasWrittenPower
    {key : Key}
    (wellFormed : key.WellFormed) : key.HasWrittenPower := by
  obtain ⟨letters, exponent, rfl, _, digits, _⟩ := wellFormed
  exact ⟨exponent, digits, rfl⟩

/-- A power without the zeros in front of its exponent. -/
def significantPower (key : Key) : List Char :=
  key.power.toList.take 1 ++ (key.power.toList.drop 1).dropWhile (· == '0')

/-- Keys tie if they have the same letters, and powers that differ at most in
the zeros in front of their exponents. -/
def Ties (first second : Key) : Prop :=
  first.letters = second.letters ∧ first.significantPower = second.significantPower

instance (first second : Key) : Decidable (first.Ties second) :=
  inferInstanceAs (Decidable (_ ∧ _))

theorem naturalOf?_of_digits
    {digits : List Char}
    (nonempty : digits ≠ [])
    (areDigits : ∀ c ∈ digits, c.isDigit = true) :
    naturalOf? digits = some (Nat.ofDigitChars 10 digits 0) := by
  have headDigit : ∀ c, digits.head? = some c → c.isDigit = true := fun c head =>
    areDigits c (List.mem_of_head? head)
  have notPlus : digits.head? ≠ some '+' := fun head => absurd (headDigit '+' head) (by decide)
  have notLow : digits.head? ≠ some '_' := fun head => absurd (headDigit '_' head) (by decide)
  have allDigits : (digits.all fun c => c.isDigit || c == '_') = true :=
    List.all_eq_true.mpr fun c member => by rw [areDigits c member, Bool.true_or]
  simp only [naturalOf?, if_neg notPlus]
  rw [if_neg (by simp [nonempty, notLow]), if_pos allDigits, List.filter_eq_self.mpr areDigits]

/-- The exponent of a power that can be written is the number of its digits. -/
theorem exponent?_of_power
    {key : Key}
    {exponent : List Char}
    (digits : ∀ c ∈ exponent, c.isDigit = true)
    (power : key.power = String.ofList (Monomial.powerChars exponent)) :
    key.exponent? =
      if exponent = [] then none else some (Nat.ofDigitChars 10 exponent 0) := by
  rw [exponent?, power, String.toList_ofList, Monomial.powerChars]
  by_cases empty : exponent = []
  · simp [empty]
  · simp only [List.isEmpty_iff, if_neg empty]
    exact naturalOf?_of_digits empty digits

theorem significantPower_of_power
    {key : Key}
    {exponent : List Char}
    (power : key.power = String.ofList (Monomial.powerChars exponent)) :
    key.significantPower =
      if exponent = [] then [] else '^' :: exponent.dropWhile (· == '0') := by
  rw [significantPower, power, String.toList_ofList, Monomial.powerChars]
  by_cases empty : exponent = [] <;> simp [empty]

/-- Powers write the same number exactly when they differ at most in zeros in
front. -/
theorem exponent?_eq_iff
    {first second : Key}
    (firstWritten : first.HasWrittenPower)
    (secondWritten : second.HasWrittenPower) :
    first.exponent? = second.exponent? ↔ first.significantPower = second.significantPower := by
  obtain ⟨firstExponent, firstDigits, firstPower⟩ := firstWritten
  obtain ⟨secondExponent, secondDigits, secondPower⟩ := secondWritten
  rw [exponent?_of_power firstDigits firstPower, exponent?_of_power secondDigits secondPower,
    significantPower_of_power firstPower, significantPower_of_power secondPower]
  by_cases firstEmpty : firstExponent = []
  · by_cases secondEmpty : secondExponent = [] <;> simp [firstEmpty, secondEmpty]
  · by_cases secondEmpty : secondExponent = []
    · simp [firstEmpty, secondEmpty]
    · rw [if_neg firstEmpty, if_neg secondEmpty, if_neg firstEmpty, if_neg secondEmpty,
        Option.some_inj, List.cons_inj_right, Numeral.ofDigitChars_eq_iff firstDigits secondDigits]

end Key

/-- Two lists have the terms that tie in the same order. -/
def Term.TiesInSameOrder (first second : List Term) : Prop :=
  ∀ former latter : Term, former.key.Ties latter.key →
    ([former, latter].Sublist first ↔ [former, latter].Sublist second)

namespace PowerOrder

/-- With powers compared as numbers, the terms that compare equal are those
whose keys tie. -/
theorem orderingOfTerms_numerical_eq_iff
    {first second : Term}
    (firstWritten : first.key.HasWrittenPower)
    (secondWritten : second.key.HasWrittenPower) :
    numerical.orderingOfTerms first second = .eq ↔ first.key.Ties second.key := by
  rw [orderingOfTerms, orderingOfKeys, Ordering.then_eq_eq, Ordering.then_eq_eq, compare_eq_iff_eq,
    compare_eq_iff_eq, Key.Ties, ← Key.exponent?_eq_iff firstWritten secondWritten]
  change compare second.key.exponent? first.key.exponent? = .eq ∧ _ ↔ _
  rw [Std.compare_eq_iff_eq]
  constructor
  · rintro ⟨sameNumber, _, sameLetters⟩
    exact ⟨sameLetters, sameNumber.symm⟩
  · rintro ⟨sameLetters, sameNumber⟩
    exact ⟨sameNumber.symm, by rw [sameLetters], sameLetters⟩

/-! ## What sorting keeps of the order -/

theorem not_pair_sublist_swap
    {terms : List Term}
    (distinct : terms.Nodup)
    {former latter : Term}
    (pair : [former, latter].Sublist terms) : ¬[latter, former].Sublist terms := by
  induction terms with
  | nil => cases pair
  | cons first rest inductionHypothesis =>
      obtain ⟨firstNew, restDistinct⟩ := List.nodup_cons.mp distinct
      intro swapped
      rw [List.cons_sublist_cons', List.singleton_sublist] at pair swapped
      rcases pair with inRest | ⟨rfl, latterInRest⟩
      · rcases swapped with swappedInRest | ⟨rfl, _⟩
        · exact inductionHypothesis restDistinct inRest swappedInRest
        · exact firstNew (inRest.subset (by simp))
      · rcases swapped with swappedInRest | ⟨rfl, _⟩
        · exact firstNew (swappedInRest.subset (by simp))
        · exact firstNew latterInRest

theorem pair_sublist_or_swap
    {terms : List Term}
    {former latter : Term}
    (formerMember : former ∈ terms)
    (latterMember : latter ∈ terms)
    (different : former ≠ latter) :
    [former, latter].Sublist terms ∨ [latter, former].Sublist terms := by
  obtain ⟨before, behind, rfl⟩ := List.append_of_mem formerMember
  rcases List.mem_append.mp latterMember with inBefore | inRest
  · right
    exact (List.singleton_sublist.mpr inBefore).append
      (List.singleton_sublist.mpr List.mem_cons_self)
  · left
    have inBehind := (List.mem_cons.mp inRest).resolve_left different.symm
    exact ((List.singleton_sublist.mpr inBehind).cons_cons former).trans
      (List.sublist_append_right before _)

theorem orderingOfTerms_eq_symm
    {order : PowerOrder}
    {first second : Term}
    (equal : order.orderingOfTerms first second = .eq) :
    order.orderingOfTerms second first = .eq := by
  have swap : order.orderingOfTerms second first = (order.orderingOfTerms first second).swap :=
    Std.OrientedCmp.eq_swap
  rw [swap, equal]
  rfl

/-- Terms that compare equal stood in the order in which they are sorted. -/
theorem pair_sublist_of_sort
    {order : PowerOrder}
    {terms : List Term}
    (distinct : terms.Nodup)
    {former latter : Term}
    (equal : order.orderingOfTerms former latter = .eq)
    (pair : [former, latter].Sublist (order.sort terms)) : [former, latter].Sublist terms := by
  have permuted := order.sort_perm terms
  have sortedDistinct := permuted.nodup_iff.mpr distinct
  have different : former ≠ latter := by
    have pairDistinct := sortedDistinct.sublist pair
    simpa using pairDistinct
  have formerMember := permuted.mem_iff.mp (pair.subset (by simp : former ∈ [former, latter]))
  have latterMember := permuted.mem_iff.mp (pair.subset (by simp : latter ∈ [former, latter]))
  refine (pair_sublist_or_swap formerMember latterMember different).resolve_right fun swapped => ?_
  have inOrder : (order.orderingOfTerms latter former).isLE = true := by
    rw [orderingOfTerms_eq_symm equal]
    rfl
  exact not_pair_sublist_swap sortedDistinct pair (pair_sublist_sort inOrder swapped)

/-- Two lists of the same terms are sorted alike exactly when the terms that
compare equal stand in the same order in both. -/
theorem sort_eq_sort_iff
    {order : PowerOrder}
    {first second : List Term}
    (permuted : first.Perm second)
    (distinct : first.Nodup) :
    order.sort first = order.sort second ↔
      ∀ former latter, order.orderingOfTerms former latter = .eq →
        ([former, latter].Sublist first ↔ [former, latter].Sublist second) := by
  have secondDistinct := permuted.nodup_iff.mp distinct
  constructor
  · intro sorted former latter equal
    have inOrder : (order.orderingOfTerms former latter).isLE = true := by
      rw [equal]
      rfl
    constructor
    · intro pair
      have pairSorted := pair_sublist_sort inOrder pair
      rw [sorted] at pairSorted
      exact pair_sublist_of_sort secondDistinct equal pairSorted
    · intro pair
      have pairSorted := pair_sublist_sort inOrder pair
      rw [← sorted] at pairSorted
      exact pair_sublist_of_sort distinct equal pairSorted
  · intro sameOrder
    -- Both sorted lists are in the order of the terms, refined by the order in the first list.
    apply @List.Perm.eq_of_pairwise _ fun former latter =>
      (order.orderingOfTerms former latter).isLE = true ∧
        (order.orderingOfTerms former latter = .eq → [former, latter].Sublist first)
    · rintro former latter _ _ ⟨before, pair⟩ ⟨behind, swapped⟩
      have equal : order.orderingOfTerms former latter = .eq :=
        Std.OrientedCmp.isLE_antisymm before behind
      exact absurd (swapped (orderingOfTerms_eq_symm equal))
        (not_pair_sublist_swap distinct (pair equal))
    · refine (order.pairwise_sort first).and (List.pairwise_iff_forall_sublist.mpr ?_)
      exact fun pair equal => pair_sublist_of_sort distinct equal pair
    · refine (order.pairwise_sort second).and (List.pairwise_iff_forall_sublist.mpr ?_)
      exact fun pair equal =>
        (sameOrder _ _ equal).mpr (pair_sublist_of_sort secondDistinct equal pair)
    · exact (order.sort_perm first).trans (permuted.trans (order.sort_perm second).symm)

/-- With powers compared as numbers, two lists of the same terms are sorted
alike exactly when the terms that tie stand in the same order in both. -/
theorem sort_numerical_eq_iff
    {first second : List Term}
    (written : ∀ term ∈ first, term.key.HasWrittenPower)
    (permuted : first.Perm second)
    (distinct : (first.map Term.key).Nodup) :
    numerical.sort first = numerical.sort second ↔ Term.TiesInSameOrder first second := by
  rw [sort_eq_sort_iff permuted distinct.of_map]
  refine forall_congr' fun former => forall_congr' fun latter => ?_
  -- Outside the lists the order of terms and the ties may differ, but no pair stands there.
  by_cases members : former ∈ first ∧ latter ∈ first
  · rw [orderingOfTerms_numerical_eq_iff (written former members.1) (written latter members.2)]
  · have noPair : ¬[former, latter].Sublist first := fun pair =>
      members ⟨pair.subset (by simp), pair.subset (by simp)⟩
    have noOtherPair : ¬[former, latter].Sublist second := fun pair =>
      members ⟨permuted.mem_iff.mpr (pair.subset (by simp)),
        permuted.mem_iff.mpr (pair.subset (by simp))⟩
    exact iff_of_true (fun _ => iff_of_false noPair noOtherPair)
      fun _ => iff_of_false noPair noOtherPair

end PowerOrder
end CanonicalEquation
