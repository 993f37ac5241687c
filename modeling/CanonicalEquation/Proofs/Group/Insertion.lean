import CanonicalEquation.Proofs.Group.Approach
import CanonicalEquation.Proofs.Group.Pieces

/-!
# A factor of one in front of a group

With the tokens `1` and `*` put in front of it, a group gets one more factor,
and everything else that the pass makes of the tokens stays the same, errors
included.  Only a group that no other factor and no `-` multiplies is then
written anew.
-/

namespace CanonicalEquation
namespace Group

/-- Whether another factor or a `-` multiplies a group, between the tokens in
front of it and those behind it. -/
def Multiplied (before rest : List Token) : Prop :=
  before.getLast? = some .times ∨ before.getLast? = some (.sign .minus) ∨
    rest.head? = some .times

/-- The lead of a group multiplies it, or keeps at most a `+` with it. -/
theorem Front.behind
    {before settled held : List Token}
    (front : Front before settled held)
    {lead : Lead}
    (read : Lead.ofTokens held = .ok lead) :
    (before.getLast? = some .times ∨ before.getLast? = some (.sign .minus)) ∧
        (lead.factors ≠ [] ∨ lead.sign = some .minus) ∨
      ¬(before.getLast? = some .times ∨ before.getLast? = some (.sign .minus)) ∧
        lead.factors = [] ∧ Behind before lead.sign (settled ++ lead.before.reverse) := by
  cases front with
  | start empty =>
      cases read
      refine .inr ⟨by simp [empty], rfl, ?_⟩
      exact .start empty
  | group former last isPart =>
      cases read
      refine .inr ⟨by simp [last], rfl, ?_⟩
      rw [List.reverse_nil, List.append_nil]
      exact .term former last isPart
  | held last plain equals =>
      rename_i token others
      cases token with
      | times => exact .inl ⟨.inl last, .inl (Lead.factors_ne_nil read)⟩
      | sign sign =>
          cases read
          cases sign with
          | minus => exact .inl ⟨.inr last, .inr rfl⟩
          | plus =>
              refine .inr ⟨by simp [last], rfl, .signed last ?_⟩
              rw [← equals]
              simp
      | equals =>
          cases read
          refine .inr ⟨by simp [last], rfl, ?_⟩
          rw [List.reverse_cons, ← List.append_assoc]
          exact .equals _ last
      | literal text =>
          cases read
          refine .inr ⟨by simp [last], rfl, ?_⟩
          rw [List.reverse_cons, ← List.append_assoc]
          exact .term _ last (Equation.isPart_literal plain)

/-! ## With and without a factor of one -/

theorem factorOf_one : factorOf (.literal "1") = .ok 1 := by
  have wellFormed : Numeral.WellFormed ⟨['1'], []⟩ := Numeral.wellFormed_digit rfl
  have value : Numeral.value ⟨['1'], []⟩ = 1 := by decide +kernel
  have read := factorOf_numeral wellFormed
  rw [value] at read
  exact read

theorem Lead.ofTokens_one (held : List Token) :
    ofTokens (.times :: .literal "1" :: held) =
      ofTokens held >>= fun lead => .ok { lead with factors := 1 :: lead.factors } := by
  have value : factorValues ["1"] = .ok [1] := by
    change (factorOf (.literal "1") >>= fun value => .ok [value]) = _
    rw [factorOf_one]
    rfl
  have read := ofTokens_approach ["1"] held
  rw [value] at read
  exact read

theorem openFrom_outside_one
    (held rest : List Token) :
    openFrom (.outside held) (.literal "1" :: .times :: rest) =
      openFrom (.outside (.times :: .literal "1" :: held)) rest := by
  rw [openFrom_outside held (by decide), openFrom_outside _ rfl]

/-- The equation cannot be opened up to a group, or what it is opened to depends
on the tokens that are held back in front of the group. -/
theorem openAll_insert
    {before : List Token}
    (areWords : ∀ token ∈ before, token.IsWord)
    {opening : String}
    {inner : List Char}
    (chars : opening.toList = '(' :: inner)
    (after : List Token) :
    (openAll (before ++ .literal opening :: after)).toOption = none ∧
        (openAll (before ++ .literal "1" :: .times :: .literal opening :: after)).toOption = none ∨
      ∃ settled held, Front before settled held ∧
        openAll (before ++ .literal opening :: after) =
          (openFrom (.outside held) (.literal opening :: after) >>= fun remaining =>
            .ok (settled ++ remaining)) ∧
        openAll (before ++ .literal "1" :: .times :: .literal opening :: after) =
          (openFrom (.outside (.times :: .literal "1" :: held)) (.literal opening :: after) >>=
            fun remaining => .ok (settled ++ remaining)) := by
  rcases openAll_approach areWords chars with fails | ⟨settled, held, front, opens⟩
  · exact .inl ⟨fails none [] after, fails none ["1"] after⟩
  · refine .inr ⟨settled, held, front, opens none [] after, ?_⟩
    rw [← openFrom_outside_one]
    exact opens none ["1"] after

/-- A group cannot be opened behind the tokens that are held back, or its
replacement gets one more factor. -/
theorem openFrom_insert
    {enclosure : Enclosure}
    (wellFormed : enclosure.WellFormed)
    (held rest : List Token) :
    (openFrom (.outside held) (enclosure.tokens ++ rest)).toOption = none ∧
        (openFrom (.outside (.times :: .literal "1" :: held))
          (enclosure.tokens ++ rest)).toOption = none ∨
      ∃ lead terms more remaining, Lead.ofTokens held = .ok lead ∧
        enclosedTerms enclosure.tokens = .ok terms ∧ (more = [] ↔ rest.head? ≠ some .times) ∧
        openFrom (.outside held) (enclosure.tokens ++ rest) =
          .ok (lead.before.reverse ++
            (replacement lead.sign (lead.factors ++ more) enclosure.tokens terms ++ remaining)) ∧
        openFrom (.outside (.times :: .literal "1" :: held)) (enclosure.tokens ++ rest) =
          .ok (lead.before.reverse ++
            (replacement lead.sign (1 :: (lead.factors ++ more)) enclosure.tokens terms ++
              remaining)) := by
  rcases openFrom_enclosure wellFormed rest with
    fails | ⟨terms, more, remaining, encloses, noMore, _, opens⟩
  · exact .inl ⟨fails held, fails _⟩
  · rw [opens held, opens (.times :: .literal "1" :: held), Lead.ofTokens_one]
    cases Lead.ofTokens held with
    | error error => exact .inl ⟨rfl, rfl⟩
    | ok lead => exact .inr ⟨lead, terms, more, remaining, rfl, encloses, noMore, rfl, rfl⟩

/-- One more factor of one does not change a group that something multiplies. -/
theorem replacement_one_cons
    {sign : Option Sign}
    {factors : List Rat}
    (multiplied : factors ≠ [] ∨ sign = some .minus)
    (group : List Token)
    (terms : List Term) :
    replacement sign (1 :: factors) group terms = replacement sign factors group terms := by
  have one : product (1 :: factors) = product factors := one_mul _
  rw [replacement_of_multiplied multiplied, ← one]
  exact replacement_of_multiplied (.inl (List.cons_ne_nil 1 factors)) group terms

/-! ## Errors with and without a factor of one -/

/-- A group that has ended is settled with the same error if it gets a factor of
one. -/
theorem settle_one_eq_error_iff
    (held : List Token)
    (ending : Ending)
    (cause : GroupError) :
    ending.settle held = .error cause ↔
      ending.settle (.times :: .literal "1" :: held) = .error cause := by
  unfold Ending.settle finish
  rw [Lead.ofTokens_one]
  generalize enclosedTerms ending.group.reverse = content
  generalize openFrom (.outside []) ending.rest = others
  cases Lead.ofTokens held with
  | error other => exact Iff.rfl
  | ok lead =>
      cases content with
      | error other => exact Iff.rfl
      | ok terms =>
          cases others with
          | error other => exact Iff.rfl
          | ok remaining => exact iff_of_false nofun nofun

/-- Outside of groups the factor of one is held back, and the group comes to the
same error. -/
theorem openFrom_outside_one_eq_error_iff
    (held : List Token)
    {opening : String}
    {inner : List Char}
    (chars : opening.toList = '(' :: inner)
    (after : List Token)
    (cause : GroupError) :
    openFrom (.outside held) (.literal opening :: after) = .error cause ↔
      openFrom (.outside held) (.literal "1" :: .times :: .literal opening :: after) =
        .error cause := by
  obtain ⟨ending, ends⟩ := (leadsInGroup_of_opening chars).exists_ending after
  rw [openFrom_outside_one, ends, ends, bind_eq_error_iff, bind_eq_error_iff]
  simp only [settle_one_eq_error_iff held]

/-- A literal that begins a group comes to the same error with a factor of one in
front of it, wherever the pass stands. -/
theorem openFrom_one_eq_error_iff
    (state : State)
    {opening : String}
    {inner : List Char}
    (chars : opening.toList = '(' :: inner)
    (after : List Token)
    (cause : GroupError) :
    openFrom state (.literal opening :: after) = .error cause ↔
      openFrom state (.literal "1" :: .times :: .literal opening :: after) = .error cause := by
  cases state with
  | outside held => exact openFrom_outside_one_eq_error_iff held chars after cause
  | inside held first group =>
      have one : opener (.inside held first group) (.literal "1") =
          .ok ([], .inside held first (.literal "1" :: group)) := rfl
      have times : opener (.inside held first (.literal "1" :: group)) .times =
          .ok ([], .inside held first (.times :: .literal "1" :: group)) := rfl
      rw [openFrom_of_silent one, openFrom_of_silent times, openFrom_inside_opening chars,
        openFrom_inside_opening chars]
  | behind held group factors =>
      rw [openFrom_behind held group factors (by simp), openFrom_behind held group factors (by simp),
        bind_eq_error_iff, bind_eq_error_iff]
      simp only [bind_ok_eq_error_iff, openFrom_outside_one_eq_error_iff [] chars]
  | multiplying held group factors =>
      have one : opener (.multiplying held group factors) (.literal "1") =
          .ok ([], .behind held group (1 :: factors)) := by
        change factorOf (.literal "1") >>= _ = _
        rw [factorOf_one]
        rfl
      rw [openFrom_of_silent one, openFrom_behind_times, openFrom_multiplying_opening chars,
        openFrom_multiplying_opening chars]

/-- A factor of one in front of a group does not change the error with which
tokens cannot be opened. -/
theorem openAll_one_eq_error_iff
    (before : List Token)
    {opening : String}
    {inner : List Char}
    (chars : opening.toList = '(' :: inner)
    (after : List Token)
    (cause : GroupError) :
    openAll (before ++ .literal opening :: after) = .error cause ↔
      openAll (before ++ .literal "1" :: .times :: .literal opening :: after) = .error cause := by
  rw [openAll_eq, openAll_eq, openFrom_append_eq, openFrom_append_eq, bind_eq_error_iff,
    bind_eq_error_iff]
  simp only [bind_ok_eq_error_iff, openFrom_one_eq_error_iff _ chars]

/-- A group behind the `*` of another one is no factor, whether or not it has a
factor of its own. -/
theorem openAll_one_behind_times :
    openAll [.literal "(x)", .times, .literal "(y)"] = .error (.notNumber "(y)") ∧
      openAll [.literal "(x)", .times, .literal "1", .times, .literal "(y)"] =
        .error (.notNumber "(y)") := by
  have chars : "(y)".toList = '(' :: "y)".toList := by decide
  have fails : openAll [.literal "(x)", .times, .literal "(y)"] = .error (.notNumber "(y)") := by
    rfl
  exact ⟨fails, (openAll_one_eq_error_iff [.literal "(x)", .times] chars [] _).mp fails⟩

end Group
end CanonicalEquation
