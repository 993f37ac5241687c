import CanonicalEquation.Proofs.Equation.Sides
import CanonicalEquation.Proofs.Equation.Tally
import Mathlib.Algebra.Ring.Parity
import Mathlib.Tactic.Linarith
import Mathlib.Tactic.Module

/-!
# What moving a side does to its terms

Moving a side turns round each sign that stands alone.  Signs in front of a
term multiply, so a term behind an odd number of them is turned round, but a
term behind an even number of them is not.  A term without a sign in front can
only be the first of its side, and gets a `-`.
-/

namespace CanonicalEquation
namespace Side

/-- For each literal of a side, how many signs stand alone directly in front
of it, if `count` signs stand in front of the side. -/
def signRuns (count : Nat) : List Token → List Nat
  | [] => []
  | .sign _ :: rest => signRuns (count + 1) rest
  | _ :: rest => count :: signRuns 0 rest

/-- Those terms of a side that stand behind an even number of signs, but not
behind none. -/
def behindEvenRuns
    (count : Nat)
    (side : List Token)
    (terms : List Term) : List Term :=
  (((signRuns count side).zip terms).filter fun pair => pair.1 ≠ 0 ∧ Even pair.1).map Prod.snd

theorem behindEvenRuns_sign
    (count : Nat)
    (sign : Sign)
    (rest : List Token)
    (terms : List Term) :
    behindEvenRuns count (.sign sign :: rest) terms = behindEvenRuns (count + 1) rest terms := rfl

theorem behindEvenRuns_literal
    (count : Nat)
    (text : String)
    (rest : List Token)
    (term : Term)
    (terms : List Term) :
    behindEvenRuns count (.literal text :: rest) (term :: terms) =
      (if count ≠ 0 ∧ Even count then [term] else []) ++ behindEvenRuns 0 rest terms := by
  have runs : signRuns count (.literal text :: rest) = count :: signRuns 0 rest := rfl
  rw [behindEvenRuns, runs, List.zip_cons_cons, List.filter_cons]
  by_cases even : count ≠ 0 ∧ Even count
  · rw [if_pos (by simpa using even), if_pos even]
    rfl
  · rw [if_neg (by simpa using even), if_neg even]
    rfl

/-- How far a side and the side that subtracts it have been read, when a number
of signs stand directly in front of both places. -/
inductive Facing : Nat → Reading → Reading → Prop
  /-- Behind a term. -/
  | afterTerm : Facing 0 .afterTerm .afterTerm
  /-- Behind at least one sign. -/
  | signed
      (count : Nat)
      (product : Sign) :
      Facing (count + 1) (.signed product)
        (.signed (if Even (count + 1) then product else -product))

/-- Reading one more sign of a side, turned round in the side that subtracts
it. -/
theorem Facing.sign
    {count : Nat}
    {reading turned : Reading}
    (facing : Facing count reading turned)
    (sign : Sign) :
    Facing (count + 1) (.signed (reading.sign * sign)) (.signed (turned.sign * -sign)) := by
  have next := Facing.signed count (reading.sign * sign)
  cases facing with
  | afterTerm =>
      rw [if_neg (by decide)] at next
      exact next
  | signed count product =>
      have product_eq : (if Even (count + 1) then product else -product) * -sign =
          if Even (count + 1 + 1) then product * sign else -(product * sign) := by
        by_cases even : Even (count + 1)
        · rw [if_pos even, if_neg (Nat.even_add_one.not.mpr (not_not.mpr even)), Sign.mul_neg]
        · rw [if_neg even, if_pos (Nat.even_add_one.mpr even), Sign.neg_mul, Sign.mul_neg,
            Sign.neg_neg]
      change Facing _ _ (.signed ((if Even (count + 1) then product else -product) * -sign))
      rw [product_eq]
      exact next

/-- A side that has been read to its end leaves no sign over in the side that
subtracts it. -/
theorem Facing.complete?_eq_some
    {count : Nat}
    {reading turned : Reading}
    (facing : Facing count reading turned)
    {terms : List Term}
    (complete : complete? (terms, reading) = some terms)
    (combination : Combination) :
    complete? (combination, turned) = some combination := by
  cases facing with
  | afterTerm => rfl
  | signed count product => cases complete

/-- What tokens are worth with their signs turned round: every term counts
against, except those that are behind an even number of signs. -/
def Turned
    (count : Nat)
    (turned : Reading)
    (side turnedSide : List Token)
    (terms : List Term)
    (last : Reading) : Prop :=
  ∃ lastCount lastTurned, Facing lastCount last lastTurned ∧
    sum? turned turnedSide =
      some (-Combination.ofTerms terms +
        (2 : Rat) • Combination.ofTerms (behindEvenRuns count side terms), lastTurned)

/-- A literal behind signs is turned round with them if their number is odd, and
if there is none by the sign that it gets. -/
theorem Turned.literal
    {text : String}
    (notParenthesis : isParenthesis text = false)
    {rest : List Token}
    {count : Nat}
    {reading turned : Reading}
    (ready : reading ≠ .afterTerm)
    (turnedReady : turned ≠ .afterTerm)
    (sign : turned.sign = if count ≠ 0 ∧ Even count then reading.sign else -reading.sign)
    {terms : List Term}
    {last : Reading}
    (reads : read? reading (.literal text :: rest) = some (terms, last))
    (restTurned : ∀ more, read? .afterTerm rest = some (more, last) →
      Turned 0 .afterTerm rest (rest.map Equation.turnSign) more last) :
    Turned count turned (.literal text :: rest) (.literal text :: rest.map Equation.turnSign)
      terms last := by
  rw [read?_literal ready notParenthesis] at reads
  obtain ⟨term, found, mapped⟩ := Option.bind_eq_some_iff.mp reads
  obtain ⟨⟨more, final⟩, restReads, equal⟩ := Option.map_eq_some_iff.mp mapped
  cases equal
  obtain ⟨lastCount, lastTurned, facing, restSum⟩ := restTurned more restReads
  refine ⟨lastCount, lastTurned, facing, ?_⟩
  rw [sum?_literal turnedReady notParenthesis, found, Option.bind_some, restSum, Option.map_some,
    sign, behindEvenRuns_literal, Combination.ofTerms_append, Combination.ofTerms_cons,
    Term.combination_signed]
  by_cases even : count ≠ 0 ∧ Even count
  · rw [if_pos even, if_pos even, Combination.ofTerms_cons, Term.combination_signed,
      Combination.ofTerms_nil]
    congr 2
    module
  · rw [if_neg even, if_neg even, Sign.scale_neg, Combination.ofTerms_nil]
    congr 2
    module

/-- The rest of a side with its signs turned round. -/
theorem turned_map_turnSign
    {side : List Token}
    (plain : ∀ token ∈ side, token.hasParenthesis = false)
    {count : Nat}
    {reading turned : Reading}
    (facing : Facing count reading turned)
    {terms : List Term}
    {last : Reading}
    (reads : read? reading side = some (terms, last)) :
    Turned count turned side (side.map Equation.turnSign) terms last := by
  induction side generalizing count reading turned terms with
  | nil =>
      cases reads
      refine ⟨count, turned, facing, ?_⟩
      rw [List.map_nil, sum?_nil, Combination.ofTerms_nil, behindEvenRuns]
      simp
  | cons token rest inductionHypothesis =>
      obtain ⟨tokenPlain, restPlain⟩ := List.forall_mem_cons.mp plain
      cases token with
      | equals => cases reads
      | times => cases reads
      | sign sign =>
          rw [read?_sign] at reads
          rw [List.map_cons, Equation.turnSign_sign, Turned, sum?_sign, behindEvenRuns_sign]
          exact inductionHypothesis restPlain (facing.sign sign) reads
      | literal text =>
          have notParenthesis := isParenthesis_eq_false tokenPlain
          cases facing with
          | afterTerm =>
              rw [read?_literal_of_afterTerm notParenthesis] at reads
              cases reads
          | signed count product =>
              refine Turned.literal notParenthesis (Reading.signed_ne_afterTerm product)
                (Reading.signed_ne_afterTerm _) ?_ reads fun more restReads =>
                  inductionHypothesis restPlain .afterTerm restReads
              simp only [ne_eq, Nat.succ_ne_zero, not_false_eq_true, true_and]
              rfl

/-- The side that subtracts a side, behind a whole side. -/
theorem turned_subtract
    {side : List Token}
    (plain : ∀ token ∈ side, token.hasParenthesis = false)
    (nonempty : side ≠ [])
    {before : Reading}
    (noSign : before.sign = .plus)
    {terms : List Term}
    {last : Reading}
    (reads : read? .start side = some (terms, last)) :
    Turned 0 before side (Equation.subtract side) terms last := by
  obtain ⟨token, rest, rfl⟩ := List.exists_cons_of_ne_nil nonempty
  obtain ⟨tokenPlain, restPlain⟩ := List.forall_mem_cons.mp plain
  cases token with
  | equals => cases reads
  | times => cases reads
  | sign sign =>
      rw [read?_sign] at reads
      rw [Equation.subtract_sign, Turned, sum?_sign, behindEvenRuns_sign, noSign]
      exact turned_map_turnSign restPlain (Facing.signed 0 sign) reads
  | literal text =>
      have sign : (Reading.signed (.plus * .minus)).sign =
          if 0 ≠ 0 ∧ Even 0 then Reading.start.sign else -Reading.start.sign := rfl
      rw [Equation.subtract_literal, Turned, sum?_sign, noSign]
      exact Turned.literal (isParenthesis_eq_false tokenPlain) Reading.start_ne_afterTerm
        (Reading.signed_ne_afterTerm _) sign reads fun more restReads =>
          turned_map_turnSign restPlain .afterTerm restReads

end Side

namespace Equation

/-- What an equation is worth with its right-hand side moved. -/
theorem worth?_append_subtract
    {left right : List Token}
    (plain : ∀ token ∈ right, token.hasParenthesis = false)
    (nonempty : right ≠ [])
    {leftTerms rightTerms : List Term}
    {leftLast rightLast : Side.Reading}
    (leftReads : Side.read? .start left = some (leftTerms, leftLast))
    (leftComplete : Side.complete? (leftTerms, leftLast) = some leftTerms)
    (rightReads : Side.read? .start right = some (rightTerms, rightLast))
    (rightComplete : Side.complete? (rightTerms, rightLast) = some rightTerms) :
    Side.worth? (left ++ subtract right) =
      some (Combination.ofTerms leftTerms + (-Combination.ofTerms rightTerms +
        (2 : Rat) • Combination.ofTerms (Side.behindEvenRuns 0 right rightTerms))) := by
  obtain ⟨lastCount, lastTurned, facing, rightSum⟩ :=
    Side.turned_subtract plain nonempty (Side.sign_of_complete? leftComplete) rightReads
  have leftSum : Side.sum? .start left = some (Combination.ofTerms leftTerms, leftLast) := by
    rw [Side.sum?, leftReads, Option.map_some]
  rw [Side.worth?, Side.sum?_append, leftSum, Option.bind_some, rightSum, Option.map_some,
    Option.bind_some]
  exact facing.complete?_eq_some rightComplete _

/-- An equation that is worth something with its right-hand side moved sums up
to that. -/
theorem exists_summed
    {left right : List Token}
    (leftNone : .equals ∉ left)
    (rightNone : .equals ∉ right)
    {worth : Combination}
    (isWorth : Side.worth? (left ++ subtract right) = some worth) :
    ∃ summed, SummedEquation.ofTokens (Equation.zeroForm ⟨left, right⟩) = .ok summed ∧
      ∀ key, Tally.valueAt key summed.terms = worth key := by
  rw [← Side.map_terms_eq_worth?] at isWorth
  obtain ⟨found, reads, rfl⟩ := Option.map_eq_some_iff.mp isWorth
  refine ⟨⟨(Tally.ofTerms found).terms, zeroTail⟩, ?_, fun key => Tally.valueAt_terms ..⟩
  cases terms : Side.terms (left ++ subtract right) with
  | error error =>
      rw [terms] at reads
      cases reads
  | ok sideTerms =>
      rw [terms] at reads
      cases reads
      rw [summed_zeroForm leftNone rightNone, terms]
      rfl

/-- Moving a side subtracts its terms exactly when those of them that stand
behind an even number of signs, but not behind none, cancel out. -/
theorem migration_subtracts_iff
    {left right : List Token}
    (plain : ∀ token ∈ right, token.hasParenthesis = false)
    (nonempty : right ≠ [])
    {leftTerms rightTerms : List Term}
    (leftRead : Side.terms left = .ok leftTerms)
    (rightRead : Side.terms right = .ok rightTerms) :
    ∃ equation summed,
      ofTokens (left ++ .equals :: right) = .ok equation ∧
      SummedEquation.ofTokens equation.zeroForm = .ok summed ∧
      (∀ key, Tally.valueAt key summed.terms =
        Term.sumAt key leftTerms - Term.sumAt key rightTerms +
          2 * Term.sumAt key (Side.behindEvenRuns 0 right rightTerms)) ∧
      ((∀ key, Tally.valueAt key summed.terms =
          Term.sumAt key leftTerms - Term.sumAt key rightTerms) ↔
        ∀ key, Term.sumAt key (Side.behindEvenRuns 0 right rightTerms) = 0) := by
  obtain ⟨leftLast, leftReads, leftComplete⟩ := Side.terms_eq_ok_iff.mp leftRead
  obtain ⟨rightLast, rightReads, rightComplete⟩ := Side.terms_eq_ok_iff.mp rightRead
  have leftNone := Side.equals_notMem_of_read? leftReads
  have rightNone := Side.equals_notMem_of_read? rightReads
  obtain ⟨summed, sums, totals⟩ := exists_summed leftNone rightNone
    (worth?_append_subtract plain nonempty leftReads leftComplete rightReads rightComplete)
  have values : ∀ key, Tally.valueAt key summed.terms =
      Term.sumAt key leftTerms - Term.sumAt key rightTerms +
        2 * Term.sumAt key (Side.behindEvenRuns 0 right rightTerms) := by
    intro key
    rw [totals, Finsupp.add_apply, Finsupp.add_apply, Finsupp.neg_apply, Finsupp.smul_apply,
      smul_eq_mul, Combination.ofTerms_apply, Combination.ofTerms_apply,
      Combination.ofTerms_apply]
    ring
  refine ⟨⟨left, right⟩, summed, ofTokens_append_equals leftNone rightNone nonempty, sums,
    values, ?_⟩
  refine forall_congr' fun key => ?_
  rw [values key]
  constructor
  · intro equal
    linarith
  · intro zero
    rw [zero]
    ring

/-- In `x = - - y` the two signs in front of `y` are both turned round, so `y`
is added. -/
theorem migration_adds_behind_two_signs :
    ∃ equation summed,
      ofTokens [.literal "x", .equals, .sign .minus, .sign .minus, .literal "y"] = .ok equation ∧
      SummedEquation.ofTokens equation.zeroForm = .ok summed ∧
      Tally.valueAt ⟨"y", ""⟩ summed.terms = 1 ∧
      ¬∀ key, Tally.valueAt key summed.terms =
        Term.sumAt key [⟨.plus, none, ⟨"x", ""⟩⟩] - Term.sumAt key [⟨.plus, none, ⟨"y", ""⟩⟩] := by
  have leftRead : Side.terms [.literal "x"] = .ok [⟨.plus, none, ⟨"x", ""⟩⟩] := by rfl
  have rightRead : Side.terms [.sign .minus, .sign .minus, .literal "y"] =
      .ok [⟨.plus, none, ⟨"y", ""⟩⟩] := by rfl
  obtain ⟨equation, summed, cut, sums, values, subtracts⟩ :=
    migration_subtracts_iff (by decide) (by decide) leftRead rightRead
  refine ⟨equation, summed, cut, sums, ?_, ?_⟩
  · rw [values]
    decide +kernel
  · rw [subtracts]
    intro cancels
    exact absurd (cancels ⟨"y", ""⟩) (by decide +kernel)

end Equation
end CanonicalEquation
