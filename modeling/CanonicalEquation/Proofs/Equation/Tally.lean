import CanonicalEquation.CanonicalForm
import CanonicalEquation.Proofs.Combination

/-!
# A tally loses nothing

A tally has one entry for each key of the terms that it was made of, and the
entry holds the sum of their values.  So its terms are, up to their order,
decided by what the terms that it was made of are worth together.
-/

namespace CanonicalEquation
namespace Term

theorem ofValue?_eq_none_iff
    {key : Key}
    {value : Rat} : ofValue? key value = none ↔ value = 0 := by
  unfold ofValue?
  split <;> simp [*]

theorem key_of_ofValue?
    {key : Key}
    {value : Rat}
    {term : Term}
    (made : ofValue? key value = some term) : term.key = key := by
  unfold ofValue? at made
  split at made
  · exact absurd made (by simp)
  · rw [← Option.some.inj made]

theorem coefficient_of_ofValue?
    {key : Key}
    {value : Rat}
    {term : Term}
    (made : ofValue? key value = some term) :
    term.coefficient = if value.abs = 1 then none else some value.abs := by
  unfold ofValue? at made
  split at made
  · exact absurd made (by simp)
  · rw [← Option.some.inj made]

theorem sign_of_ofValue?
    {key : Key}
    {value : Rat}
    {term : Term}
    (made : ofValue? key value = some term) : term.sign = Sign.ofRat value := by
  unfold ofValue? at made
  split at made
  · exact absurd made (by simp)
  · rw [← Option.some.inj made]

theorem magnitude_of_ofValue?
    {key : Key}
    {value : Rat}
    {term : Term}
    (made : ofValue? key value = some term) : term.magnitude = value.abs := by
  rw [magnitude, coefficient_of_ofValue? made]
  split
  next one => exact one.symm
  · rfl

theorem value_of_ofValue?
    {key : Key}
    {value : Rat}
    {term : Term}
    (made : ofValue? key value = some term) : term.value = value := by
  rw [Term.value, sign_of_ofValue? made, magnitude_of_ofValue? made, Sign.ofRat]
  split
  next negative => rw [Rat.abs_of_nonpos negative.le, Sign.apply_minus, neg_neg]
  next notNegative => exact Rat.abs_of_nonneg (not_lt.mp notNegative)

end Term

namespace Tally

/-- What a list of entries is worth. -/
noncomputable def worth (entries : List (Key × Rat)) : Combination :=
  (entries.map fun entry => Finsupp.single entry.1 entry.2).sum

@[simp] theorem worth_nil : worth [] = 0 := rfl

@[simp] theorem worth_cons
    (entry : Key × Rat)
    (entries : List (Key × Rat)) :
    worth (entry :: entries) = Finsupp.single entry.1 entry.2 + worth entries := by
  simp [worth]

theorem worth_addEntry
    (key : Key)
    (value : Rat)
    (entries : List (Key × Rat)) :
    worth (addEntry key value entries) = worth entries + Finsupp.single key value := by
  induction entries with
  | nil => simp [addEntry]
  | cons entry rest inductionHypothesis =>
      unfold addEntry
      split
      next equal =>
        rw [worth_cons, worth_cons, equal, Finsupp.single_add]
        abel
      · rw [worth_cons, worth_cons, inductionHypothesis, add_assoc]

/-- An entry is added to the keys at the end, and only if it is new. -/
theorem map_fst_addEntry
    (key : Key)
    (value : Rat)
    (entries : List (Key × Rat)) :
    (addEntry key value entries).map Prod.fst =
      if key ∈ entries.map Prod.fst then
        entries.map Prod.fst
      else
        entries.map Prod.fst ++ [key] := by
  induction entries with
  | nil => rfl
  | cons entry rest inductionHypothesis =>
      unfold addEntry
      by_cases equal : entry.1 = key
      · simp [equal]
      · rw [if_neg equal, List.map_cons, inductionHypothesis, List.map_cons]
        by_cases member : key ∈ rest.map Prod.fst
        · rw [if_pos member, if_pos (List.mem_cons_of_mem _ member)]
        · have notMember : key ∉ entry.1 :: rest.map Prod.fst := by
            rw [List.mem_cons]
            exact fun cases => cases.elim (fun same => equal same.symm) member
          rw [if_neg member, if_neg notMember, List.cons_append]

theorem nodup_addEntry
    (key : Key)
    (value : Rat)
    {entries : List (Key × Rat)}
    (distinct : (entries.map Prod.fst).Nodup) :
    ((addEntry key value entries).map Prod.fst).Nodup := by
  rw [map_fst_addEntry]
  split
  · exact distinct
  next notMember =>
    rw [List.nodup_append_comm, List.singleton_append]
    exact List.nodup_cons.mpr ⟨notMember, distinct⟩

/-- Adding terms to a tally keeps its keys distinct and adds what the terms are
worth. -/
theorem foldl_add
    (terms : List Term)
    (tally : Tally)
    (distinct : (tally.entries.map Prod.fst).Nodup) :
    ((terms.foldl add tally).entries.map Prod.fst).Nodup ∧
      worth (terms.foldl add tally).entries =
        worth tally.entries + Combination.ofTerms terms := by
  induction terms generalizing tally with
  | nil => simp [distinct]
  | cons first rest inductionHypothesis =>
      have added : ((tally.add first).entries.map Prod.fst).Nodup :=
        nodup_addEntry first.key first.value distinct
      obtain ⟨restDistinct, restWorth⟩ := inductionHypothesis (tally.add first) added
      refine ⟨restDistinct, ?_⟩
      rw [List.foldl_cons, restWorth, Combination.ofTerms_cons]
      change worth (addEntry first.key first.value tally.entries) + _ = _
      rw [worth_addEntry, Term.combination, add_assoc]

theorem nodup_ofTerms (terms : List Term) :
    ((ofTerms terms).entries.map Prod.fst).Nodup :=
  (foldl_add terms ⟨[]⟩ List.nodup_nil).1

theorem worth_ofTerms (terms : List Term) :
    worth (ofTerms terms).entries = Combination.ofTerms terms := by
  have sums := (foldl_add terms ⟨[]⟩ List.nodup_nil).2
  rw [worth_nil, zero_add] at sums
  exact sums

theorem worth_apply_of_not_mem
    {entries : List (Key × Rat)}
    {key : Key}
    (notMember : key ∉ entries.map Prod.fst) : worth entries key = 0 := by
  induction entries with
  | nil => rfl
  | cons first rest inductionHypothesis =>
      rw [List.map_cons, List.mem_cons, not_or] at notMember
      rw [worth_cons, Finsupp.add_apply, Finsupp.single_eq_of_ne notMember.1, zero_add,
        inductionHypothesis notMember.2]

/-- With distinct keys, an entry is found again in what the entries are worth. -/
theorem worth_apply_of_mem
    {entries : List (Key × Rat)}
    (distinct : (entries.map Prod.fst).Nodup)
    {entry : Key × Rat}
    (member : entry ∈ entries) : worth entries entry.1 = entry.2 := by
  induction entries with
  | nil => exact absurd member List.not_mem_nil
  | cons first rest inductionHypothesis =>
      rw [List.map_cons, List.nodup_cons] at distinct
      obtain ⟨firstNew, restDistinct⟩ := distinct
      rw [worth_cons, Finsupp.add_apply]
      rcases List.mem_cons.mp member with equal | inRest
      · subst equal
        rw [Finsupp.single_eq_same, worth_apply_of_not_mem firstNew, add_zero]
      · have different : entry.1 ≠ first.1 := by
          intro equal
          exact firstNew (equal ▸ List.mem_map_of_mem inRest)
        rw [Finsupp.single_eq_of_ne different, zero_add, inductionHypothesis restDistinct inRest]

/-- An entry for each key that is not worth zero, with what it is worth. -/
theorem mem_entries_iff
    {terms : List Term}
    {key : Key}
    {value : Rat}
    (nonzero : value ≠ 0) :
    (key, value) ∈ (ofTerms terms).entries ↔ Combination.ofTerms terms key = value := by
  rw [← worth_ofTerms]
  constructor
  · exact worth_apply_of_mem (nodup_ofTerms terms)
  · intro equal
    have member : key ∈ (ofTerms terms).entries.map Prod.fst := by
      by_contra notMember
      rw [worth_apply_of_not_mem notMember] at equal
      exact nonzero equal.symm
    obtain ⟨⟨entryKey, entryValue⟩, inEntries, rfl⟩ := List.mem_map.mp member
    have found := worth_apply_of_mem (nodup_ofTerms terms) inEntries
    rw [← equal, found]
    exact inEntries

/-! ## The terms of a tally -/

/-- The terms of a tally are those that have the worth of its terms at their
keys. -/
theorem mem_terms_iff
    {terms : List Term}
    {term : Term} :
    term ∈ (ofTerms terms).terms ↔
      Term.ofValue? term.key (Combination.ofTerms terms term.key) = some term := by
  rw [Tally.terms, List.mem_filterMap]
  constructor
  · rintro ⟨⟨key, value⟩, member, made⟩
    obtain rfl := Term.key_of_ofValue? made
    have nonzero : value ≠ 0 := by
      intro zero
      rw [Term.ofValue?_eq_none_iff.mpr zero] at made
      exact absurd made (by simp)
    rw [(mem_entries_iff nonzero).mp member]
    exact made
  · intro made
    have nonzero : Combination.ofTerms terms term.key ≠ 0 := by
      intro zero
      rw [Term.ofValue?_eq_none_iff.mpr zero] at made
      exact absurd made (by simp)
    exact ⟨(term.key, Combination.ofTerms terms term.key), (mem_entries_iff nonzero).mpr rfl, made⟩

/-- The keys of the terms of a tally are those that are not worth zero. -/
theorem mem_keys_terms_iff
    {terms : List Term}
    {key : Key} :
    key ∈ (ofTerms terms).terms.map Term.key ↔ Combination.ofTerms terms key ≠ 0 := by
  constructor
  · intro member zero
    obtain ⟨term, inTerms, rfl⟩ := List.mem_map.mp member
    have made := mem_terms_iff.mp inTerms
    rw [Term.ofValue?_eq_none_iff.mpr zero] at made
    exact absurd made (by simp)
  · intro nonzero
    cases made : Term.ofValue? key (Combination.ofTerms terms key) with
    | none => exact absurd (Term.ofValue?_eq_none_iff.mp made) nonzero
    | some term =>
        obtain rfl := Term.key_of_ofValue? made
        exact List.mem_map_of_mem (mem_terms_iff.mpr made)

/-- The terms of a tally have the keys of its entries that are not zero, in their
order. -/
theorem map_key_terms (tally : Tally) :
    tally.terms.map Term.key =
      (tally.entries.filter fun entry => entry.2 ≠ 0).map Prod.fst := by
  obtain ⟨entries⟩ := tally
  unfold Tally.terms
  induction entries with
  | nil => rfl
  | cons entry rest inductionHypothesis =>
      by_cases zero : entry.2 = 0
      · rw [List.filterMap_cons_none (by simp [Term.ofValue?, zero]), inductionHypothesis,
          List.filter_cons_of_neg (by simp [zero])]
      · rw [List.filterMap_cons_some (by rw [Term.ofValue?, if_neg zero]), List.map_cons,
          inductionHypothesis, List.filter_cons_of_pos (by simp [zero]), List.map_cons]

theorem keys_terms_sublist (tally : Tally) :
    (tally.terms.map Term.key).Sublist (tally.entries.map Prod.fst) := by
  rw [map_key_terms]
  exact List.filter_sublist.map Prod.fst

theorem nodup_keys_terms (terms : List Term) :
    ((ofTerms terms).terms.map Term.key).Nodup :=
  (nodup_ofTerms terms).sublist (keys_terms_sublist _)

/-- The value of the term with a key, zero if there is none. -/
def valueAt (key : Key) (terms : List Term) : Rat :=
  ((terms.find? fun term => term.key = key).map Term.value).getD 0

/-- In a tally, the term with a key has the sum of what the tally was made of. -/
theorem valueAt_terms
    (key : Key)
    (terms : List Term) : valueAt key (ofTerms terms).terms = Combination.ofTerms terms key := by
  unfold valueAt
  cases found : (ofTerms terms).terms.find? fun term => term.key = key with
  | none =>
      have notMember : key ∉ (ofTerms terms).terms.map Term.key := by
        intro member
        obtain ⟨term, inTerms, equal⟩ := List.mem_map.mp member
        exact absurd equal (by simpa using List.find?_eq_none.mp found term inTerms)
      rw [mem_keys_terms_iff, not_not] at notMember
      exact notMember.symm
  | some term =>
      have sameKey : term.key = key := by simpa using List.find?_some found
      have made := mem_terms_iff.mp (List.mem_of_find?_eq_some found)
      rw [sameKey] at made
      exact Term.value_of_ofValue? made

/-- The terms of a tally are worth what it was made of. -/
theorem ofTerms_terms (terms : List Term) :
    Combination.ofTerms (ofTerms terms).terms = Combination.ofTerms terms := by
  have sums : Combination.ofTerms (ofTerms terms).terms = worth (ofTerms terms).entries := by
    unfold Tally.terms
    induction (ofTerms terms).entries with
    | nil => rfl
    | cons entry rest inductionHypothesis =>
        cases made : Term.ofValue? entry.1 entry.2 with
        | none =>
            have zero : entry.2 = 0 := Term.ofValue?_eq_none_iff.mp made
            simp only [List.filterMap_cons, made]
            rw [inductionHypothesis, worth_cons, zero,
              Finsupp.single_zero, zero_add]
        | some term =>
            simp only [List.filterMap_cons, made]
            rw [Combination.ofTerms_cons, inductionHypothesis, worth_cons, Term.combination,
              Term.key_of_ofValue? made, Term.value_of_ofValue? made]
  rw [sums, worth_ofTerms]

/-- Two tallies have the same terms, up to their order, exactly when what they
were made of is worth the same. -/
theorem terms_perm_iff
    {first second : List Term} :
    (ofTerms first).terms.Perm (ofTerms second).terms ↔
      Combination.ofTerms first = Combination.ofTerms second := by
  constructor
  · intro permuted
    rw [← ofTerms_terms first, ← ofTerms_terms second]
    exact Combination.ofTerms_perm permuted
  · intro equal
    apply (List.perm_ext_iff_of_nodup (nodup_keys_terms first).of_map
      (nodup_keys_terms second).of_map).mpr
    intro term
    rw [mem_terms_iff, mem_terms_iff, equal]

/-! ## Terms that are summed already -/

theorem addEntry_of_notMem
    {key : Key}
    (value : Rat)
    {entries : List (Key × Rat)}
    (notMember : key ∉ entries.map Prod.fst) :
    addEntry key value entries = entries ++ [(key, value)] := by
  induction entries with
  | nil => rfl
  | cons entry rest inductionHypothesis =>
      rw [List.map_cons, List.mem_cons, not_or] at notMember
      rw [addEntry, if_neg (Ne.symm notMember.1), inductionHypothesis notMember.2, List.cons_append]

/-- Terms with new and distinct keys are put behind the entries of a tally as
they are. -/
theorem entries_foldl_add
    {terms : List Term}
    {tally : Tally}
    (distinct : (tally.entries.map Prod.fst ++ terms.map Term.key).Nodup) :
    (terms.foldl add tally).entries =
      tally.entries ++ terms.map fun term => (term.key, term.value) := by
  induction terms generalizing tally with
  | nil => exact (List.append_nil _).symm
  | cons first rest inductionHypothesis =>
      rw [List.map_cons, List.append_cons] at distinct
      have new : first.key ∉ tally.entries.map Prod.fst := by
        have firstNew := (List.nodup_append_comm.mp distinct.of_append_left)
        exact (List.nodup_cons.mp firstNew).1
      have added : (tally.add first).entries = tally.entries ++ [(first.key, first.value)] :=
        addEntry_of_notMem first.value new
      rw [List.foldl_cons, inductionHypothesis (by rwa [added, List.map_append]), added,
        List.map_cons, List.append_assoc, List.singleton_append]

/-- A tally of terms with distinct keys has the values of the terms. -/
theorem entries_ofTerms
    {terms : List Term}
    (distinct : (terms.map Term.key).Nodup) :
    (ofTerms terms).entries = terms.map fun term => (term.key, term.value) :=
  entries_foldl_add distinct

/-- A term of value zero changes no term of a tally. -/
theorem terms_add_zero
    (tally : Tally)
    {term : Term}
    (zero : term.value = 0) : (tally.add term).terms = tally.terms := by
  obtain ⟨entries⟩ := tally
  change (addEntry term.key term.value entries).filterMap _ = entries.filterMap _
  rw [zero]
  induction entries with
  | nil => rfl
  | cons entry rest inductionHypothesis =>
      unfold addEntry
      split
      next same => rw [add_zero, ← same]
      · rw [List.filterMap_cons, List.filterMap_cons, inductionHypothesis]

theorem terms_foldl_add_zero
    (tally : Tally)
    {zeros : List Term}
    (areZero : ∀ term ∈ zeros, term.value = 0) : (zeros.foldl add tally).terms = tally.terms := by
  induction zeros generalizing tally with
  | nil => rfl
  | cons first rest inductionHypothesis =>
      obtain ⟨firstZero, restZero⟩ := List.forall_mem_cons.mp areZero
      rw [List.foldl_cons, inductionHypothesis _ restZero, terms_add_zero tally firstZero]

/-- Terms with distinct keys and values that give them are the terms of the
tally of any terms with their keys and values, and of terms of value zero behind
these. -/
theorem terms_ofTerms_append
    {terms found zeros : List Term}
    (distinct : (terms.map Term.key).Nodup)
    (made : ∀ term ∈ terms, Term.ofValue? term.key term.value = some term)
    (same : found.map (fun term => (term.key, term.value)) =
      terms.map fun term => (term.key, term.value))
    (areZero : ∀ term ∈ zeros, term.value = 0) : (ofTerms (found ++ zeros)).terms = terms := by
  have keys : found.map Term.key = terms.map Term.key := by
    have firsts := congrArg (List.map Prod.fst) same
    rwa [List.map_map, List.map_map] at firsts
  have folded : ofTerms (found ++ zeros) = zeros.foldl add (ofTerms found) := List.foldl_append
  rw [folded, terms_foldl_add_zero _ areZero, Tally.terms, entries_ofTerms (keys ▸ distinct), same,
    List.filterMap_map]
  exact (List.filterMap_congr made).trans List.filterMap_some

end Tally
end CanonicalEquation
