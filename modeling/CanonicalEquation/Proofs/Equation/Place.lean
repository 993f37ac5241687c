import CanonicalEquation.Proofs.Equation.Sides
import Mathlib.Data.List.Basic

/-!
# Parts of an equation

What an equation is worth depends on a part of one of its sides only through
what the part is worth where it stands.  A part of the left-hand side is read
as it is, and a part of the right-hand side with its signs turned round.  At
the front of the right-hand side, a part also gets a `-` if it does not begin
with a sign.
-/

namespace CanonicalEquation
namespace Side

/-- Tokens that end with a term, wherever they can be read, and however their
signs are turned. -/
def EndsTerm (tokens : List Token) : Prop :=
  ∀ sign reading result,
    sum? reading (tokens.map (Equation.turnBy sign)) = some result → result.2 = .afterTerm

theorem EndsTerm.ne_nil
    {tokens : List Token}
    (ends : EndsTerm tokens) : tokens ≠ [] := by
  rintro rfl
  cases ends .plus .start _ rfl

theorem EndsTerm.append
    (former : List Token)
    {latter : List Token}
    (ends : EndsTerm latter) : EndsTerm (former ++ latter) := by
  intro sign reading result reads
  rw [List.map_append, sum?_append] at reads
  obtain ⟨middle, _, mapped⟩ := Option.bind_eq_some_iff.mp reads
  obtain ⟨last, latterReads, rfl⟩ := Option.map_eq_some_iff.mp mapped
  exact ends sign middle.2 last latterReads

theorem endsTerm_literal
    {text : String}
    (notParenthesis : isParenthesis text = false) : EndsTerm [.literal text] := by
  intro sign reading result reads
  rw [List.map_singleton, Equation.turnBy_literal] at reads
  by_cases ready : reading = .afterTerm
  · rw [ready, sum?_literal_of_afterTerm notParenthesis] at reads
    cases reads
  · rw [sum?_literal ready notParenthesis] at reads
    obtain ⟨term, _, mapped⟩ := Option.bind_eq_some_iff.mp reads
    obtain ⟨last, nothing, rfl⟩ := Option.map_eq_some_iff.mp mapped
    cases nothing
    rfl

theorem EndsTerm.subtract
    {tokens : List Token}
    (ends : EndsTerm tokens)
    {reading : Reading}
    {result : Combination × Reading}
    (reads : sum? reading (Equation.subtract tokens) = some result) : result.2 = .afterTerm := by
  unfold Equation.subtract at reads
  split at reads
  · exact ends .minus reading result reads
  · rw [sum?_sign] at reads
    exact ends .minus _ result reads

/-- What a side is worth with a part that is worth something, behind a
combination and in front of tokens. -/
noncomputable def around?
    (front : Combination)
    (rest : List Token)
    (part : Option (Combination × Reading)) : Option Combination :=
  (part.bind fun middle =>
    (sum? middle.2 rest).map fun last => (front + (middle.1 + last.1), last.2)).bind complete?

theorem worth?_append_append
    (front part rest : List Token) :
    worth? (front ++ (part ++ rest)) =
      (sum? .start front).bind fun first => around? first.1 rest (sum? first.2 part) := by
  rw [worth?, sum?_append]
  cases sum? .start front with
  | none => rfl
  | some first =>
      rw [Option.bind_some, Option.bind_some, sum?_append, around?]
      cases sum? first.2 part with
      | none => rfl
      | some middle =>
          rw [Option.bind_some, Option.bind_some, Option.map_map]
          rfl

theorem around?_some
    (front : Combination)
    (rest : List Token)
    (worth : Combination)
    (reading : Reading) :
    around? front rest (some (worth, reading)) =
      ((sum? reading rest).bind complete?).map fun last => front + (worth + last) := by
  rw [around?, Option.bind_some]
  cases sum? reading rest with
  | none => rfl
  | some result =>
      obtain ⟨last, lastReading⟩ := result
      cases lastReading <;> rfl

/-- A side is worth something with a part that can be read exactly when what
follows a term can be read behind it. -/
theorem exists_around?_iff
    (front : Combination)
    (rest : List Token)
    {part : Option (Combination × Reading)}
    (ends : ∀ result, part = some result → result.2 = .afterTerm) :
    (∃ worth, around? front rest part = some worth) ↔
      (∃ result, part = some result) ∧
        ∃ last, (sum? .afterTerm rest).bind complete? = some last := by
  cases part with
  | none => exact iff_of_false nofun fun both => nomatch both.1
  | some result =>
      obtain ⟨worth, reading⟩ := result
      obtain rfl : reading = .afterTerm := ends _ rfl
      rw [around?_some, and_iff_right ⟨_, rfl⟩]
      constructor
      · rintro ⟨_, isWorth⟩
        obtain ⟨last, isLast, _⟩ := Option.map_eq_some_iff.mp isWorth
        exact ⟨last, isLast⟩
      · rintro ⟨last, isLast⟩
        exact ⟨_, Option.map_eq_some_iff.mpr ⟨last, isLast, rfl⟩⟩

/-- A side that two different parts make worth the same is worth nothing. -/
theorem around?_eq_none_of_ne
    {front : Combination}
    {rest : List Token}
    {first second : Option (Combination × Reading)}
    (firstEnds : ∀ result, first = some result → result.2 = .afterTerm)
    (secondEnds : ∀ result, second = some result → result.2 = .afterTerm)
    (different : first ≠ second)
    (same : around? front rest first = around? front rest second) :
    around? front rest first = none := by
  cases first with
  | none => rfl
  | some firstResult =>
      cases second with
      | none => exact same
      | some secondResult =>
          obtain ⟨firstWorth, reading⟩ := firstResult
          obtain ⟨secondWorth, other⟩ := secondResult
          obtain rfl : reading = .afterTerm := firstEnds _ rfl
          obtain rfl : other = .afterTerm := secondEnds _ rfl
          rw [around?_some, around?_some] at same
          rw [around?_some]
          cases restWorth : (sum? .afterTerm rest).bind complete? with
          | none => rfl
          | some last =>
              rw [restWorth] at same
              obtain rfl : firstWorth = secondWorth :=
                add_right_cancel (add_left_cancel (Option.some.inj same))
              exact absurd rfl different

end Side

namespace Equation

theorem exists_sides_of_worth?
    {tokens : List Token}
    {worth : Combination}
    (isWorth : worth? tokens = some worth) :
    ∃ left right, tokens = left ++ .equals :: right ∧
      .equals ∉ left ∧ .equals ∉ right ∧ right ≠ [] := by
  obtain ⟨equation, cut, _⟩ := Option.bind_eq_some_iff.mp isWorth
  cases found : ofTokens tokens with
  | error error =>
      rw [found] at cut
      cases cut
  | ok sides => exact ⟨sides.left, sides.right, ofTokens_eq_ok_iff.mp found⟩

theorem worth?_eq_none_of_notMem
    {tokens : List Token}
    (noEquals : .equals ∉ tokens) : worth? tokens = none := by
  by_contra isWorth
  obtain ⟨worth, isWorth⟩ := Option.ne_none_iff_exists'.mp isWorth
  obtain ⟨left, right, rfl, _⟩ := exists_sides_of_worth? isWorth
  exact noEquals (List.mem_append_right _ List.mem_cons_self)

/-- An equation has only one equality sign, and something behind it. -/
theorem worth?_eq_none
    {left right : List Token}
    (leftNone : .equals ∉ left)
    (wrong : .equals ∈ right ∨ right = []) : worth? (left ++ .equals :: right) = none := by
  by_contra isWorth
  obtain ⟨worth, isWorth⟩ := Option.ne_none_iff_exists'.mp isWorth
  obtain ⟨otherLeft, otherRight, same, otherNone, rightNone, nonempty⟩ :=
    exists_sides_of_worth? isWorth
  have tails := congrArg (List.dropWhile (· != Token.equals)) same
  rw [dropWhile_ne_equals leftNone, dropWhile_ne_equals otherNone] at tails
  obtain rfl := (List.cons_eq_cons.mp tails).2
  rcases wrong with member | empty
  · exact rightNone member
  · exact nonempty empty

/-- Where a part stands behind the tokens in front of it: how it is read on the
left-hand side, and what has been read there in front of it. -/
inductive Place : List Token → (List Token → List Token) → Side.Reading → Prop
  /-- On the left-hand side. -/
  | onLeft
      {front : List Token}
      {worth : Combination}
      {reading : Side.Reading}
      (noEquals : .equals ∉ front)
      (reads : Side.sum? .start front = some (worth, reading)) :
      Place front id reading
  /-- On the right-hand side, behind other tokens of it. -/
  | onRight
      {left right : List Token}
      {worth : Combination}
      {reading : Side.Reading}
      (nonempty : right ≠ [])
      (noEquals : .equals ∉ right)
      (reads : Side.sum? .start (left ++ subtract right) = some (worth, reading)) :
      Place (left ++ .equals :: right) (List.map turnSign) reading
  /-- At the front of the right-hand side. -/
  | atRight
      {left : List Token}
      {worth : Combination}
      {reading : Side.Reading}
      (reads : Side.sum? .start left = some (worth, reading)) :
      Place (left ++ [.equals]) subtract reading

/-- Parts that can stand in an equation. -/
structure IsPart (part : List Token) : Prop where
  nonempty : part ≠ []
  noEquals : .equals ∉ part
  endsTerm : Side.EndsTerm part

theorem isPart_literal
    {text : String}
    (plain : (Token.literal text).hasParenthesis = false) : IsPart [.literal text] :=
  ⟨List.cons_ne_nil _ _, by simp, Side.endsTerm_literal (Side.isParenthesis_eq_false plain)⟩

theorem Place.endsTerm
    {front : List Token}
    {view : List Token → List Token}
    {reading : Side.Reading}
    (place : Place front view reading)
    {part : List Token}
    (isPart : IsPart part) :
    ∀ result, Side.sum? reading (view part) = some result → result.2 = .afterTerm := by
  intro result reads
  cases place with
  | onLeft noEquals frontReads =>
      rw [id, ← map_turnBy_plus part] at reads
      exact isPart.endsTerm .plus reading result reads
  | onRight nonempty noEquals frontReads => exact isPart.endsTerm .minus reading result reads
  | atRight frontReads => exact isPart.endsTerm.subtract reads

/-- A part that begins with a sign is only turned round, on the right-hand
side. -/
theorem Place.view_sign
    {front : List Token}
    {view : List Token → List Token}
    {reading : Side.Reading}
    (place : Place front view reading) :
    ∃ turn, (turn = .minus ↔ .equals ∈ front) ∧
      ∀ sign rest, view (.sign sign :: rest) = (Token.sign sign :: rest).map (turnBy turn) := by
  cases place with
  | onLeft noEquals reads =>
      refine ⟨.plus, iff_of_false nofun noEquals, fun sign rest => ?_⟩
      rw [map_turnBy_plus, id]
  | onRight nonempty noEquals reads => exact ⟨.minus, by simp, fun sign rest => rfl⟩
  | atRight reads => exact ⟨.minus, by simp, fun sign rest => rfl⟩

theorem Place.of_nil
    {view : List Token → List Token}
    {reading : Side.Reading}
    (place : Place [] view reading) : view = id ∧ reading = .start := by
  generalize equal : ([] : List Token) = front at place
  cases place with
  | onLeft noEquals reads =>
      subst equal
      cases reads
      exact ⟨rfl, rfl⟩
  | onRight nonempty noEquals reads => exact absurd equal.symm (by simp)
  | atRight reads => exact absurd equal.symm (by simp)

/-- Directly behind the equality sign, a part is subtracted as a whole. -/
theorem Place.of_equals
    {left : List Token}
    {view : List Token → List Token}
    {reading : Side.Reading}
    (place : Place (left ++ [.equals]) view reading) : view = subtract := by
  generalize equal : left ++ [Token.equals] = front at place
  cases place with
  | onLeft noEquals reads =>
      subst equal
      simp at noEquals
  | onRight nonempty noEquals reads =>
      have last := congrArg List.getLast? equal
      rw [List.getLast?_concat, List.append_cons, List.getLast?_append_of_ne_nil _ nonempty] at last
      exact absurd (List.mem_of_getLast? last.symm) noEquals
  | atRight reads => rfl

/-- Behind a part that ends with a term, a part is only turned round, on the
right-hand side. -/
theorem Place.of_append
    {former latter : List Token}
    (isPart : IsPart latter)
    {view : List Token → List Token}
    {reading : Side.Reading}
    (place : Place (former ++ latter) view reading) :
    reading = .afterTerm ∧ ∃ turn, view = List.map (turnBy turn) := by
  generalize equal : former ++ latter = front at place
  cases place with
  | onLeft noEquals reads =>
      subst equal
      rw [← map_turnBy_plus (former ++ latter)] at reads
      refine ⟨isPart.endsTerm.append former .plus _ _ reads, .plus, ?_⟩
      funext part
      rw [map_turnBy_plus, id]
  | onRight nonempty noEquals reads =>
      rename_i left right worth
      have suffix : ∃ middle, right = middle ++ latter := by
        rcases List.append_eq_append_iff.mp equal with ⟨others, _, same⟩ | ⟨others, _, same⟩
        · exact absurd (same ▸ List.mem_append_right others List.mem_cons_self) isPart.noEquals
        · cases others with
          | nil =>
              rw [List.nil_append] at same
              exact absurd (same ▸ List.mem_cons_self) isPart.noEquals
          | cons first rest => exact ⟨rest, (List.cons_eq_cons.mp same).2⟩
      obtain ⟨middle, rfl⟩ := suffix
      rw [Side.sum?_append] at reads
      obtain ⟨leftResult, _, mapped⟩ := Option.bind_eq_some_iff.mp reads
      obtain ⟨result, rightReads, same⟩ := Option.map_eq_some_iff.mp mapped
      cases same
      exact ⟨(isPart.endsTerm.append middle).subtract rightReads, .minus, rfl⟩
  | atRight reads =>
      have last := congrArg List.getLast? equal
      rw [List.getLast?_concat, List.getLast?_append_of_ne_nil _ isPart.nonempty] at last
      exact absurd (List.mem_of_getLast? last) isPart.noEquals

/-- Whether an equation is worth nothing with whichever part, or what it is
worth depends on what the part is worth in its place. -/
def DependsOnPart (front rest : List Token) : Prop :=
  (∀ part, IsPart part → worth? (front ++ (part ++ rest)) = none) ∨
    ∃ view reading worth after, Place front view reading ∧
      ∀ part, IsPart part →
        worth? (front ++ (part ++ rest)) =
          Side.around? worth after (Side.sum? reading (view part))

/-- An equation that is worth what a side is worth in which its part stands as
it is viewed. -/
theorem dependsOnPart_of_side
    {front rest former latter : List Token}
    {view : List Token → List Token}
    (cut : ∀ part, IsPart part →
      worth? (front ++ (part ++ rest)) = Side.worth? (former ++ (view part ++ latter)))
    (place : ∀ worth reading, Side.sum? .start former = some (worth, reading) →
      Place front view reading) : DependsOnPart front rest := by
  cases formerSum : Side.sum? .start former with
  | none =>
      left
      intro part isPart
      rw [cut part isPart, Side.worth?_append_append, formerSum, Option.bind_none]
  | some result =>
      right
      refine ⟨view, result.2, result.1, latter, place result.1 result.2 formerSum, ?_⟩
      intro part isPart
      rw [cut part isPart, Side.worth?_append_append, formerSum, Option.bind_some]

/-- With a part behind the equality sign. -/
theorem dependsOnPart_right
    {left right : List Token}
    (leftNone : .equals ∉ left)
    (rest : List Token) : DependsOnPart (left ++ .equals :: right) rest := by
  by_cases behind : .equals ∈ right ++ rest
  · left
    intro part isPart
    rw [List.append_assoc, List.cons_append]
    apply worth?_eq_none leftNone (.inl _)
    rcases List.mem_append.mp behind with inRight | inRest
    · exact List.mem_append_left _ inRight
    · exact List.mem_append_right _ (List.mem_append_right _ inRest)
  · rw [List.mem_append, not_or] at behind
    have cut : ∀ part, IsPart part →
        worth? ((left ++ .equals :: right) ++ (part ++ rest)) =
          Side.worth? (left ++ subtract (right ++ (part ++ rest))) := by
      intro part isPart
      rw [List.append_assoc, List.cons_append]
      apply worth?_append_equals leftNone
      · simp [behind.1, behind.2, isPart.noEquals]
      · simp [isPart.nonempty]
    by_cases empty : right = []
    · subst empty
      have subtracted : ∀ part, IsPart part →
          worth? ((left ++ [.equals]) ++ (part ++ rest)) =
            Side.worth? (left ++ (subtract part ++ rest.map turnSign)) := by
        intro part isPart
        rw [cut part isPart, List.nil_append, subtract_append isPart.nonempty]
      exact dependsOnPart_of_side subtracted fun worth reading reads => .atRight reads
    · have turned : ∀ part, IsPart part →
          worth? ((left ++ .equals :: right) ++ (part ++ rest)) =
            Side.worth? ((left ++ subtract right) ++
              (part.map turnSign ++ rest.map turnSign)) := by
        intro part isPart
        rw [cut part isPart, subtract_append empty, List.map_append, ← List.append_assoc]
      exact dependsOnPart_of_side turned fun worth reading reads =>
        .onRight empty behind.1 reads

/-- With a part in front of the equality sign. -/
theorem dependsOnPart_left
    {front left : List Token}
    (frontNone : .equals ∉ front)
    (leftNone : .equals ∉ left)
    (right : List Token) : DependsOnPart front (left ++ .equals :: right) := by
  have noEquals : ∀ part, IsPart part → .equals ∉ front ++ (part ++ left) := by
    intro part isPart
    simp [frontNone, isPart.noEquals, leftNone]
  have regroup : ∀ part, front ++ (part ++ (left ++ .equals :: right)) =
      (front ++ (part ++ left)) ++ .equals :: right := by
    intro part
    simp only [List.append_assoc]
  by_cases wrong : .equals ∈ right ∨ right = []
  · left
    intro part isPart
    rw [regroup]
    exact worth?_eq_none (noEquals part isPart) wrong
  · rw [not_or] at wrong
    have same : ∀ part, IsPart part →
        worth? (front ++ (part ++ (left ++ .equals :: right))) =
          Side.worth? (front ++ (id part ++ (left ++ subtract right))) := by
      intro part isPart
      rw [regroup, worth?_append_equals (noEquals part isPart) wrong.1 wrong.2]
      simp only [List.append_assoc, id]
    exact dependsOnPart_of_side same fun worth reading reads => .onLeft frontNone reads

theorem dependsOnPart (front rest : List Token) : DependsOnPart front rest := by
  by_cases inFront : .equals ∈ front
  · obtain ⟨left, right, rfl, leftNone⟩ := List.eq_append_cons_of_mem inFront
    exact dependsOnPart_right leftNone rest
  · by_cases inRest : .equals ∈ rest
    · obtain ⟨left, right, rfl, leftNone⟩ := List.eq_append_cons_of_mem inRest
      exact dependsOnPart_left inFront leftNone right
    · left
      intro part isPart
      apply worth?_eq_none_of_notMem
      simp [inFront, isPart.noEquals, inRest]

/-- Two parts make an equation worth the same exactly when they are worth the
same in their place, or the equation is worth nothing with either. -/
theorem worth?_eq_iff
    {front rest first second : List Token}
    (firstPart : IsPart first)
    (secondPart : IsPart second)
    {alike : Prop}
    (same : alike → ∀ view reading, Place front view reading →
      Side.sum? reading (view first) = Side.sum? reading (view second))
    (different : ¬alike → ∀ view reading, Place front view reading →
      ∀ result, Side.sum? reading (view first) = some result →
        Side.sum? reading (view second) ≠ some result) :
    worth? (front ++ (first ++ rest)) = worth? (front ++ (second ++ rest)) ↔
      worth? (front ++ (first ++ rest)) = none ∧ worth? (front ++ (second ++ rest)) = none ∨
        alike := by
  rcases dependsOnPart front rest with nothing | ⟨view, reading, worth, after, place, around⟩
  · have firstNone := nothing first firstPart
    have secondNone := nothing second secondPart
    exact ⟨fun _ => .inl ⟨firstNone, secondNone⟩, fun _ => firstNone.trans secondNone.symm⟩
  · rw [around first firstPart, around second secondPart]
    constructor
    · intro equal
      by_cases isAlike : alike
      · exact .inr isAlike
      · left
        have firstNone : Side.around? worth after (Side.sum? reading (view first)) = none := by
          cases firstSum : Side.sum? reading (view first) with
          | none => rfl
          | some result =>
              have other := different isAlike view reading place result firstSum
              rw [firstSum] at equal
              exact Side.around?_eq_none_of_ne
                (fun found isFound => place.endsTerm firstPart found (firstSum.trans isFound))
                (place.endsTerm secondPart) (Ne.symm other) equal
        exact ⟨firstNone, equal ▸ firstNone⟩
    · rintro (⟨firstNone, secondNone⟩ | isAlike)
      · exact firstNone.trans secondNone.symm
      · rw [same isAlike view reading place]

/-- The same, where the second part can be read in every place. -/
theorem worth?_eq_iff_of_some
    {front rest first second : List Token}
    (firstPart : IsPart first)
    (secondPart : IsPart second)
    {alike : Prop}
    (reads : ∀ view reading, Place front view reading →
      ∃ result, Side.sum? reading (view second) = some result ∧
        (Side.sum? reading (view first) = some result ↔ alike)) :
    worth? (front ++ (first ++ rest)) = worth? (front ++ (second ++ rest)) ↔
      worth? (front ++ (first ++ rest)) = none ∧ worth? (front ++ (second ++ rest)) = none ∨
        alike := by
  apply worth?_eq_iff firstPart secondPart
  · intro isAlike view reading place
    obtain ⟨result, secondReads, firstReads⟩ := reads view reading place
    rw [secondReads, firstReads.mpr isAlike]
  · intro unlike view reading place found firstReads secondReads
    obtain ⟨result, secondResult, iff⟩ := reads view reading place
    rw [secondReads] at secondResult
    exact unlike (iff.mp (firstReads.trans secondResult))

end Equation
end CanonicalEquation
