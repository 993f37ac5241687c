import CanonicalEquation.CanonicalForm
import CanonicalEquation.Proofs.Decimal.Rendering
import CanonicalEquation.Proofs.Equation.Sides
import CanonicalEquation.Proofs.Equation.Tally

/-!
# Summing a side

The summed terms of a side have each key once whose values do not cancel, with
their sum, in the order in which the keys appear first in the side.
-/

namespace CanonicalEquation

/-- The terms that are left when like terms are summed. -/
structure IsSumOf
    (found summed : List Term) : Prop where
  distinct : (summed.map Term.key).Nodup
  mem_keys_iff : ∀ key, key ∈ summed.map Term.key ↔ Term.sumAt key found ≠ 0
  value_eq : ∀ term ∈ summed, term.value = Term.sumAt term.key found
  coefficient_nonneg : ∀ term ∈ summed, ∀ magnitude,
    term.coefficient = some magnitude → 0 ≤ magnitude
  coefficient_eq_none_iff : ∀ term ∈ summed,
    term.coefficient = none ↔ Term.sumAt term.key found = 1 ∨ Term.sumAt term.key found = -1
  inOrder : (summed.map Term.key).Pairwise fun former latter =>
    (found.map Term.key).idxOf former < (found.map Term.key).idxOf latter

namespace Tally

/-! ## The order of the entries -/

/-- The keys of a list, each at the place of its first appearance. -/
structure AreFirsts
    (keys firsts : List Key) : Prop where
  mem_iff : ∀ key, key ∈ firsts ↔ key ∈ keys
  inOrder : firsts.Pairwise fun former latter => keys.idxOf former < keys.idxOf latter

theorem AreFirsts.addEntry
    {keys : List Key}
    {entries : List (Key × Rat)}
    (areFirsts : AreFirsts keys (entries.map Prod.fst))
    (key : Key)
    (value : Rat) :
    AreFirsts (keys ++ [key]) ((addEntry key value entries).map Prod.fst) := by
  obtain ⟨mem_iff, inOrder⟩ := areFirsts
  have sameOrder : (entries.map Prod.fst).Pairwise fun former latter =>
      (keys ++ [key]).idxOf former < (keys ++ [key]).idxOf latter := by
    refine inOrder.imp_of_mem fun formerMember latterMember before => ?_
    rw [List.idxOf_append_of_mem ((mem_iff _).mp formerMember),
      List.idxOf_append_of_mem ((mem_iff _).mp latterMember)]
    exact before
  rw [map_fst_addEntry]
  split
  next member =>
    refine ⟨fun other => ?_, sameOrder⟩
    rw [mem_iff, List.mem_append, List.mem_singleton]
    exact ⟨.inl, fun inKeys => inKeys.elim id fun same => same ▸ (mem_iff key).mp member⟩
  next notMember =>
    refine ⟨fun other => ?_, List.pairwise_append.mpr
      ⟨sameOrder, List.pairwise_singleton _ _, fun former formerMember latter isLatter => ?_⟩⟩
    · rw [List.mem_append, List.mem_append, mem_iff]
    · obtain rfl := List.mem_singleton.mp isLatter
      have formerInKeys := (mem_iff former).mp formerMember
      rw [List.idxOf_append_of_mem formerInKeys,
        List.idxOf_append_of_notMem fun inKeys => notMember ((mem_iff latter).mpr inKeys)]
      exact Nat.lt_add_right _ (List.idxOf_lt_length_iff.mpr formerInKeys)

theorem areFirsts_ofTerms (terms : List Term) :
    AreFirsts (terms.map Term.key) ((ofTerms terms).entries.map Prod.fst) := by
  induction terms using List.reverseRecOn with
  | nil => exact ⟨fun key => Iff.rfl, List.Pairwise.nil⟩
  | append_singleton former last inductionHypothesis =>
      rw [ofTerms, List.foldl_append, List.map_append]
      exact inductionHypothesis.addEntry last.key last.value

/-! ## The terms of a tally -/

theorem isSumOf_terms (found : List Term) : IsSumOf found (ofTerms found).terms := by
  have made : ∀ term ∈ (ofTerms found).terms,
      Term.ofValue? term.key (Term.sumAt term.key found) = some term := by
    intro term member
    rw [← Combination.ofTerms_apply]
    exact mem_terms_iff.mp member
  refine ⟨nodup_keys_terms found, fun key => ?_, fun term member => ?_,
    fun term member magnitude isWritten => ?_, fun term member => ?_, ?_⟩
  · rw [mem_keys_terms_iff, Combination.ofTerms_apply]
  · exact Term.value_of_ofValue? (made term member)
  · rw [Term.coefficient_of_ofValue? (made term member)] at isWritten
    split at isWritten
    · cases isWritten
    · rw [← Option.some.inj isWritten, Decimal.abs_eq_abs]
      exact abs_nonneg _
  · rw [Term.coefficient_of_ofValue? (made term member), Decimal.abs_eq_abs, ← abs_eq zero_le_one]
    split
    next one => exact iff_of_true rfl one
    next notOne => exact iff_of_false nofun notOne
  · exact (areFirsts_ofTerms found).inOrder.sublist (keys_terms_sublist _)

end Tally

/-- Where the tokens in front of the first equality sign are read, their like
terms are summed, and the tokens from that sign on are kept.  A side that is read
has no equality sign. -/
theorem SummedEquation.exists_isSumOf
    {left : List Token}
    {found : List Term}
    (sideRead : Side.terms left = .ok found)
    (rest : List Token) :
    ∃ summed, SummedEquation.ofTokens (left ++ .equals :: rest) =
        .ok ⟨summed, .equals :: rest⟩ ∧
      IsSumOf found summed := by
  have leftNone : .equals ∉ left := by
    obtain ⟨_, reads, _⟩ := Side.terms_eq_ok_iff.mp sideRead
    exact Side.equals_notMem_of_read? reads
  refine ⟨(Tally.ofTerms found).terms, ?_, Tally.isSumOf_terms found⟩
  rw [ofTokens, Equation.takeWhile_ne_equals leftNone, Equation.dropWhile_ne_equals leftNone,
    sideRead, if_pos (by simp)]
  rfl

/-- A key that cancels and comes back keeps its place. -/
theorem SummedEquation.exists_isSumOf_cancelling :
    let left := Token.scan "2x - y - 2x + 0.5 + x - 0.5"
    let found : List Term := [⟨.plus, some 2, ⟨"x", ""⟩⟩, ⟨.minus, none, ⟨"y", ""⟩⟩,
      ⟨.minus, some 2, ⟨"x", ""⟩⟩, .constant .plus (1 / 2), ⟨.plus, none, ⟨"x", ""⟩⟩,
      .constant .minus (1 / 2)]
    Side.terms left = .ok found ∧
      ∃ summed, SummedEquation.ofTokens (left ++ [.equals, .literal "0", .equals]) =
          .ok ⟨summed, [.equals, .literal "0", .equals]⟩ ∧
        IsSumOf found summed := by
  intro left found
  have sideRead : Side.terms left = .ok found := by decide +kernel
  exact ⟨sideRead, SummedEquation.exists_isSumOf sideRead [.literal "0", .equals]⟩

end CanonicalEquation
