import CanonicalEquation.Term.Order
import Mathlib.Data.List.Sort
import Mathlib.Data.Prod.Lex
import Mathlib.Data.String.Basic

/-!
# The order of keys

With powers compared as texts, keys are in a linear order: by descending
power, then by descending length of the letters, then by the letters.  Sorting
terms permutes them, and terms with distinct keys are in one order only.
-/

namespace CanonicalEquation
namespace Key

/-- What decides where a key stands. -/
def rank (key : Key) : Stringᵒᵈ ×ₗ Natᵒᵈ ×ₗ String :=
  toLex (OrderDual.toDual key.power,
    toLex (OrderDual.toDual key.letters.utf8ByteSize, key.letters))

theorem rank_injective : Function.Injective rank := by
  intro first second equal
  have pairs := toLex.injective equal
  have power : first.power = second.power :=
    OrderDual.toDual.injective (congrArg Prod.fst pairs)
  have letters : first.letters = second.letters :=
    congrArg Prod.snd (toLex.injective (congrArg Prod.snd pairs))
  cases first
  cases second
  cases power
  cases letters
  rfl

/-- The order in which keys are written. -/
instance : LinearOrder Key where
  le first second := rank first ≤ rank second
  lt first second := rank first < rank second
  le_refl key := le_refl (rank key)
  le_trans _ _ _ := le_trans
  lt_iff_le_not_ge _ _ := lt_iff_le_not_ge
  le_antisymm _ _ former latter := rank_injective (le_antisymm former latter)
  le_total first second := le_total (rank first) (rank second)
  toDecidableLE first second := inferInstanceAs (Decidable (rank first ≤ rank second))
  toDecidableLT first second := inferInstanceAs (Decidable (rank first < rank second))
  toDecidableEq := inferInstance

theorem le_iff_rank_le {first second : Key} : first ≤ second ↔ rank first ≤ rank second :=
  Iff.rfl

/-- The order of keys, spelled out. -/
theorem lt_iff {first second : Key} :
    first < second ↔
      second.power < first.power ∨
      first.power = second.power ∧
        (second.letters.utf8ByteSize < first.letters.utf8ByteSize ∨
          first.letters.utf8ByteSize = second.letters.utf8ByteSize ∧
            first.letters < second.letters) := by
  change rank first < rank second ↔ _
  rw [rank, rank, Prod.Lex.toLex_lt_toLex, Prod.Lex.toLex_lt_toLex, OrderDual.toDual_lt_toDual,
    OrderDual.toDual_lt_toDual, OrderDual.toDual_inj, OrderDual.toDual_inj]

end Key

namespace PowerOrder

theorem isLE_textual_iff
    {first second : Key} : (textual.orderingOfKeys first second).isLE = true ↔ first ≤ second := by
  rw [Key.le_iff_rank_le, Key.rank, Key.rank, Prod.Lex.toLex_le_toLex, Prod.Lex.toLex_le_toLex,
    OrderDual.toDual_lt_toDual, OrderDual.toDual_lt_toDual, OrderDual.toDual_inj,
    OrderDual.toDual_inj]
  unfold orderingOfKeys orderingOfPowers
  rw [Ordering.isLE_then_iff_or, Ordering.isLE_then_iff_or, compare_lt_iff_lt, compare_eq_iff_eq,
    compare_lt_iff_lt, compare_eq_iff_eq, Ordering.isLE_iff_ne_gt, ← ne_eq, compare_le_iff_le,
    eq_comm (a := second.power), eq_comm (a := second.letters.utf8ByteSize)]

/-! ## A total preorder -/

instance (order : PowerOrder) : Std.TransCmp order.orderingOfPowers := by
  cases order with
  | textual => exact inferInstanceAs (Std.TransCmp (compareOn Key.power))
  | numerical => exact inferInstanceAs (Std.TransCmp (compareOn Key.exponent?))

instance (order : PowerOrder) : Std.TransCmp order.orderingOfKeys :=
  inferInstanceAs (Std.TransCmp
    (compareLex (fun first second => order.orderingOfPowers second first)
      (compareLex (fun first second => compareOn (fun key => key.letters.utf8ByteSize) second first)
        (compareOn Key.letters))))

instance (order : PowerOrder) : Std.TransCmp order.orderingOfTerms where
  eq_swap {first second} := @Std.OrientedCmp.eq_swap _ order.orderingOfKeys _ first.key second.key
  isLE_trans {first second third} :=
    @Std.TransCmp.isLE_trans _ order.orderingOfKeys _ first.key second.key third.key

/-- Of two keys in either order, one does not stand behind the other. -/
theorem isLE_total
    (order : PowerOrder)
    (first second : Key) :
    (order.orderingOfKeys first second).isLE = true ∨
      (order.orderingOfKeys second first).isLE = true := by
  have swap : order.orderingOfKeys first second = (order.orderingOfKeys second first).swap :=
    Std.OrientedCmp.eq_swap
  rw [swap]
  cases order.orderingOfKeys second first <;> decide

/-- With powers compared as texts, only equal keys compare equal. -/
theorem orderingOfKeys_textual_eq_lt_iff
    {first second : Key} : textual.orderingOfKeys first second = .lt ↔ first < second := by
  have swap : textual.orderingOfKeys first second = (textual.orderingOfKeys second first).swap :=
    Std.OrientedCmp.eq_swap
  rw [← not_le, ← isLE_textual_iff, swap]
  cases textual.orderingOfKeys second first <;> decide

/-- A constant stands behind every term with letters. -/
theorem orderingOfKeys_constant
    (order : PowerOrder)
    {key : Key}
    (letters : key.letters ≠ "") : order.orderingOfKeys Key.constant key = .gt := by
  have noHigher : order.orderingOfPowers key Key.constant ≠ .lt := by
    cases order with
    | textual =>
        apply compare_lt_iff_lt.not.mpr
        rw [String.lt_iff_toList_lt]
        exact List.not_lt_nil _
    | numerical =>
        change compare key.exponent? none ≠ .lt
        cases key.exponent? <;> nofun
  have longer : compare key.letters.utf8ByteSize Key.constant.letters.utf8ByteSize = .gt :=
    Nat.compare_eq_gt.mpr
      (Nat.pos_of_ne_zero fun zero => letters (String.utf8ByteSize_eq_zero_iff.mp zero))
  unfold orderingOfKeys
  rw [longer]
  cases powers : order.orderingOfPowers key Key.constant with
  | lt => exact absurd powers noHigher
  | eq => rfl
  | gt => rfl

/-! ## Sorting -/

/-- Terms are sorted by insertion. -/
theorem sort_eq_insertionSort
    (order : PowerOrder)
    (terms : List Term) :
    order.sort terms =
      terms.insertionSort fun first second => (order.orderingOfTerms first second).isLE = true := by
  have insertion : ∀ (term : Term) (others : List Term), order.insert term others =
      others.orderedInsert (fun first second => (order.orderingOfTerms first second).isLE = true)
        term := by
    intro term others
    induction others with
    | nil => rfl
    | cons first rest inductionHypothesis =>
        rw [insert, inductionHypothesis, List.orderedInsert_cons]
  induction terms with
  | nil => rfl
  | cons first rest inductionHypothesis =>
      rw [List.insertionSort_cons, ← inductionHypothesis, ← insertion]
      rfl

/-- Sorting only moves terms. -/
theorem sort_perm
    (order : PowerOrder)
    (terms : List Term) : (order.sort terms).Perm terms := by
  rw [sort_eq_insertionSort]
  exact List.perm_insertionSort _ terms

/-- No sorted term stands behind a later one. -/
theorem pairwise_sort
    (order : PowerOrder)
    (terms : List Term) :
    (order.sort terms).Pairwise fun first second =>
      (order.orderingOfTerms first second).isLE = true := by
  have total : Std.Total fun first second : Term =>
      (order.orderingOfTerms first second).isLE = true :=
    ⟨fun first second => order.isLE_total first.key second.key⟩
  have transitive : IsTrans Term fun first second =>
      (order.orderingOfTerms first second).isLE = true :=
    ⟨fun _ _ _ => Std.TransCmp.isLE_trans⟩
  rw [sort_eq_insertionSort]
  exact List.pairwise_insertionSort _ terms

/-- Sorting leaves terms as they are if they are in order. -/
theorem sort_eq_self
    {order : PowerOrder}
    {terms : List Term}
    (sorted : terms.Pairwise fun first second =>
      (order.orderingOfTerms first second).isLE = true) : order.sort terms = terms := by
  rw [sort_eq_insertionSort]
  exact sorted.insertionSort_eq

/-- Sorting does not swap two terms that stand in order. -/
theorem pair_sublist_sort
    {order : PowerOrder}
    {former latter : Term}
    (inOrder : (order.orderingOfTerms former latter).isLE = true)
    {terms : List Term}
    (pair : [former, latter].Sublist terms) : [former, latter].Sublist (order.sort terms) := by
  rw [sort_eq_insertionSort]
  exact List.pair_sublist_insertionSort inOrder pair

end PowerOrder
end CanonicalEquation
