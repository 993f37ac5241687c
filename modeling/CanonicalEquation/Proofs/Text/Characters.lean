import CanonicalEquation.Text
import Mathlib.Data.List.TakeWhile

/-!
# Characters and runs of characters

The classes of characters as ranges of code points, and the cutting of a text
behind a maximal run of characters of one kind.
-/

namespace CanonicalEquation
namespace Text

theorem isDigit_iff {c : Char} : c.isDigit = true ↔ 48 ≤ c.toNat ∧ c.toNat ≤ 57 := by
  simp only [Char.isDigit, Bool.and_eq_true, decide_eq_true_eq, ge_iff_le,
    UInt32.le_iff_toNat_le]
  rfl

theorem isLower_iff {c : Char} : c.isLower = true ↔ 97 ≤ c.toNat ∧ c.toNat ≤ 122 := by
  change (decide (c.val ≥ 97) && decide (c.val ≤ 122)) = true ↔ _
  rw [Bool.and_eq_true, decide_eq_true_eq, decide_eq_true_eq, ge_iff_le,
    UInt32.le_iff_toNat_le, UInt32.le_iff_toNat_le]
  rfl

/-- Blanks are control characters, the space, or not ASCII at all. -/
theorem toNat_of_isBlank
    {c : Char}
    (blank : isBlank c = true) : c.toNat ≤ 32 ∨ 133 ≤ c.toNat := by
  simp only [isBlank, blankRanges, List.any_cons, List.any_nil, Bool.or_eq_true,
    Bool.and_eq_true, decide_eq_true_eq, Bool.false_eq_true, or_false] at blank
  omega

theorem not_isBlank
    {c : Char}
    (printable : 33 ≤ c.toNat ∧ c.toNat ≤ 126) : isBlank c = false := by
  by_contra blank
  have := toNat_of_isBlank (by simpa using blank)
  omega

/-- A text does not begin with a character of a kind. -/
def StopsBefore (kind : Char → Bool) (text : List Char) : Prop :=
  ∀ c ∈ text.head?, kind c = false

@[simp] theorem stopsBefore_nil (kind : Char → Bool) : StopsBefore kind [] := by
  simp [StopsBefore]

@[simp] theorem stopsBefore_cons
    (kind : Char → Bool)
    (c : Char)
    (text : List Char) : StopsBefore kind (c :: text) ↔ kind c = false := by
  simp [StopsBefore]

/-- A run of characters of a kind is cut off where the next character is not
of that kind. -/
theorem takeWhile_append_of_stopsBefore
    {kind : Char → Bool}
    {run rest : List Char}
    (inKind : ∀ c ∈ run, kind c = true)
    (stops : StopsBefore kind rest) : (run ++ rest).takeWhile kind = run := by
  rw [List.takeWhile_append_of_pos inKind]
  cases rest with
  | nil => simp
  | cons first others =>
      rw [stopsBefore_cons] at stops
      simp [stops]

theorem dropWhile_append_of_stopsBefore
    {kind : Char → Bool}
    {run rest : List Char}
    (inKind : ∀ c ∈ run, kind c = true)
    (stops : StopsBefore kind rest) : (run ++ rest).dropWhile kind = rest := by
  rw [List.dropWhile_append_of_pos inKind]
  cases rest with
  | nil => rfl
  | cons first others =>
      rw [stopsBefore_cons] at stops
      simp [stops]

/-- A maximal run at the front of a text, and what is left when as many
characters are dropped, make up the text. -/
theorem takeWhile_append_drop
    (kind : Char → Bool)
    (text : List Char) :
    text.takeWhile kind ++ text.drop (text.takeWhile kind).length = text := by
  induction text with
  | nil => rfl
  | cons first others inductionHypothesis =>
      cases inKind : kind first with
      | false => simp [inKind]
      | true =>
          rw [List.takeWhile_cons_of_pos inKind, List.length_cons, List.drop_succ_cons,
            List.cons_append, inductionHypothesis]

end Text
end CanonicalEquation
