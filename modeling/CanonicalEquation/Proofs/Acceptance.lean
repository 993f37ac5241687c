import CanonicalEquation.Proofs.NormalForm

/-!
# Which equations have a canonical form

An equation is read with its right-hand side moved to the left, so its two
sides are not read on their own.  Without parentheses the right-hand side can
be read where it is moved to exactly when it can be read on its own.  The
left-hand side only has to be readable up to its end, since the signs at its end
multiply with the sign that the right-hand side is moved with.
-/

namespace CanonicalEquation
namespace Side

/-- Whether a side can be read on its own. -/
def IsAccepted (side : List Token) : Prop :=
  ∃ terms, Side.terms side = .ok terms

theorem IsAccepted.equals_notMem
    {side : List Token}
    (accepted : IsAccepted side) : .equals ∉ side := by
  obtain ⟨terms, reads⟩ := accepted
  obtain ⟨last, reads, _⟩ := terms_eq_ok_iff.mp reads
  exact equals_notMem_of_read? reads

/-! ## What has been read behind tokens -/

/-- What has been read, with the product of its signs forgotten. -/
def Reading.kind : Reading → Reading
  | start => start
  | afterTerm => afterTerm
  | signed _ => signed .plus

theorem Reading.kind_eq_afterTerm_iff
    {reading : Reading} : reading.kind = afterTerm ↔ reading = afterTerm := by
  cases reading <;> simp [kind]

/-- The kind of what has been read behind tokens, if they can be read. -/
def kind? (reading : Reading) (tokens : List Token) : Option Reading :=
  (read? reading tokens).map fun result => result.2.kind

@[simp] theorem kind?_nil (reading : Reading) : kind? reading [] = some reading.kind := rfl

@[simp] theorem kind?_sign
    (reading : Reading)
    (sign : Sign)
    (rest : List Token) :
    kind? reading (.sign sign :: rest) = kind? (.signed (reading.sign * sign)) rest := by
  rw [kind?, kind?, read?_sign]

theorem kind?_literal_of_afterTerm
    {text : String}
    (notParenthesis : isParenthesis text = false)
    (rest : List Token) : kind? .afterTerm (.literal text :: rest) = none := by
  rw [kind?, read?_literal_of_afterTerm notParenthesis, Option.map_none]

theorem kind?_literal
    {reading : Reading}
    (ready : reading ≠ .afterTerm)
    {text : String}
    (notParenthesis : isParenthesis text = false)
    (rest : List Token) :
    kind? reading (.literal text :: rest) =
      (Term.ofChars? (dropParentheses text.toList)).bind fun _ => kind? .afterTerm rest := by
  rw [kind?, read?_literal ready notParenthesis, kind?]
  cases Term.ofChars? (dropParentheses text.toList) with
  | none => rfl
  | some term => exact Option.map_map ..

/-- Behind a literal a term has been read. -/
theorem eq_afterTerm_of_kind?_literal
    {reading last : Reading}
    {text : String}
    (notParenthesis : isParenthesis text = false)
    (reads : kind? reading [.literal text] = some last) : last = .afterTerm := by
  by_cases behind : reading = .afterTerm
  · rw [behind, kind?_literal_of_afterTerm notParenthesis] at reads
    cases reads
  · rw [kind?_literal behind notParenthesis] at reads
    obtain ⟨_, _, reads⟩ := Option.bind_eq_some_iff.mp reads
    exact (Option.some.inj reads).symm

/-- Readings that are both behind a term or both not lead on alike, however the
signs that stand alone among the tokens are turned. -/
theorem read?_rel
    {related : Reading → Reading → Prop}
    (ready : ∀ {first second}, related first second → (first = .afterTerm ↔ second = .afterTerm))
    (behindSigns : ∀ first second, related (.signed first) (.signed second))
    (behindTerm : related .afterTerm .afterTerm)
    {first second : Reading}
    (start : related first second)
    (tokens : List Token)
    (turn : Sign) :
    Option.Rel (fun result other => related result.2 other.2) (read? first tokens)
      (read? second (tokens.map (Equation.turnBy turn))) := by
  induction tokens generalizing first second with
  | nil => exact .some start
  | cons token rest inductionHypothesis =>
      rw [List.map_cons]
      cases token with
      | equals => cases turn <;> exact .none
      | times => cases turn <;> exact .none
      | sign sign =>
          rw [Equation.turnBy_sign, read?_sign, read?_sign]
          exact inductionHypothesis (behindSigns _ _)
      | literal text =>
          rw [Equation.turnBy_literal]
          by_cases parenthesis : isParenthesis text = true
          · rw [read?_parenthesis first parenthesis, read?_parenthesis second parenthesis]
            exact inductionHypothesis start
          · rw [Bool.not_eq_true] at parenthesis
            by_cases behind : first = .afterTerm
            · rw [behind, (ready start).mp behind, read?_literal_of_afterTerm parenthesis,
                read?_literal_of_afterTerm parenthesis]
              exact .none
            · have secondReady : second ≠ .afterTerm := mt (ready start).mpr behind
              rw [read?_literal behind parenthesis, read?_literal secondReady parenthesis]
              cases Term.ofChars? (dropParentheses text.toList) with
              | none => exact .none
              | some term =>
                  have later := inductionHypothesis behindTerm
                  rw [Option.bind_some, Option.bind_some]
                  generalize read? .afterTerm rest = result,
                    read? .afterTerm (rest.map (Equation.turnBy turn)) = other at later ⊢
                  cases later with
                  | none => exact .none
                  | some same => exact .some same

/-- Tokens that can be read behind no term can be read behind any signs. -/
theorem exists_read?_of_ready
    {first second : Reading}
    (firstReady : first ≠ .afterTerm)
    (secondReady : second ≠ .afterTerm)
    {tokens : List Token}
    {result : List Term × Reading}
    (reads : read? first tokens = some result)
    (turn : Sign) : ∃ other, read? second (tokens.map (Equation.turnBy turn)) = some other := by
  have alike := @read?_rel (fun former latter => former = .afterTerm ↔ latter = .afterTerm) id
    (fun _ _ => iff_of_false nofun nofun) Iff.rfl first second
    (iff_of_false firstReady secondReady) tokens turn
  rw [reads] at alike
  generalize read? second (tokens.map (Equation.turnBy turn)) = turned at alike ⊢
  cases alike with
  | some _ => exact ⟨_, rfl⟩

/-- What can be read does not depend on the signs, neither on those in front nor
on those that stand alone among the tokens. -/
theorem kind?_congr
    {first second : Reading}
    (sameKind : first.kind = second.kind)
    (tokens : List Token)
    (turn : Sign) : kind? first tokens = kind? second (tokens.map (Equation.turnBy turn)) := by
  have ready : ∀ {first second : Reading}, first.kind = second.kind →
      (first = .afterTerm ↔ second = .afterTerm) := by
    intro first second same
    rw [← Reading.kind_eq_afterTerm_iff, same, Reading.kind_eq_afterTerm_iff]
  have alike := read?_rel ready (fun _ _ => rfl) rfl sameKind tokens turn
  unfold kind?
  generalize read? first tokens = result,
    read? second (tokens.map (Equation.turnBy turn)) = other at alike ⊢
  cases alike with
  | none => rfl
  | some equal => exact congrArg some equal

/-- Two lists of tokens in a row can be read if the second can be read behind
the first. -/
theorem kind?_append
    (reading : Reading)
    (former latter : List Token) :
    kind? reading (former ++ latter) =
      (kind? reading former).bind fun middle => kind? middle latter := by
  rw [kind?, kind?, read?_append]
  cases read? reading former with
  | none => rfl
  | some middle =>
      have same : kind? middle.2 latter = kind? middle.2.kind latter := by
        rw [kind?_congr _ latter .plus, Equation.map_turnBy_plus]
        cases middle.2 <;> rfl
      rw [Option.map_some, Option.bind_some, Option.bind_some, ← same]
      exact Option.map_map ..

theorem isAccepted_iff_kind?
    {side : List Token} :
    IsAccepted side ↔ ∃ last, kind? .start side = some last ∧ last ≠ .signed .plus := by
  constructor
  · rintro ⟨terms, reads⟩
    obtain ⟨last, reads, complete⟩ := terms_eq_ok_iff.mp reads
    refine ⟨last.kind, by rw [kind?, reads, Option.map_some], ?_⟩
    cases last with
    | signed product => cases complete
    | start => exact nofun
    | afterTerm => exact nofun
  · rintro ⟨last, reads, notSigned⟩
    obtain ⟨⟨terms, reading⟩, found, rfl⟩ := Option.map_eq_some_iff.mp reads
    refine ⟨terms, terms_eq_ok_iff.mpr ⟨reading, found, ?_⟩⟩
    cases reading with
    | signed product => exact absurd rfl notSigned
    | start => rfl
    | afterTerm => rfl

/-! ## Signs at the end of a side -/

theorem kind?_signs
    (reading : Reading)
    {signs : List Sign}
    (nonempty : signs ≠ []) : kind? reading (signs.map .sign) = some (.signed .plus) := by
  induction signs generalizing reading with
  | nil => exact absurd rfl nonempty
  | cons first rest inductionHypothesis =>
      rw [List.map_cons, kind?_sign]
      by_cases restEmpty : rest = []
      · rw [restEmpty, List.map_nil, kind?_nil]
        rfl
      · exact inductionHypothesis _ restEmpty

/-- A side that ends with a sign cannot be read on its own. -/
theorem not_isAccepted_append_signs
    (side : List Token)
    {signs : List Sign}
    (nonempty : signs ≠ []) : ¬IsAccepted (side ++ signs.map .sign) := by
  rw [isAccepted_iff_kind?, kind?_append]
  rintro ⟨last, reads, notSigned⟩
  obtain ⟨middle, _, reads⟩ := Option.bind_eq_some_iff.mp reads
  rw [kind?_signs middle nonempty] at reads
  exact notSigned (Option.some.inj reads).symm

/-- A side that can be read on its own ends with a literal. -/
theorem exists_literal_of_isAccepted
    {former : List Token}
    {token : Token}
    (accepted : IsAccepted (former ++ [token])) : ∃ text, token = .literal text := by
  rw [isAccepted_iff_kind?, kind?_append] at accepted
  obtain ⟨last, reads, notSigned⟩ := accepted
  obtain ⟨middle, _, tokenReads⟩ := Option.bind_eq_some_iff.mp reads
  cases token with
  | literal text => exact ⟨text, rfl⟩
  | sign sign => exact absurd (Option.some.inj tokenReads).symm notSigned
  | equals => cases tokenReads
  | times => cases tokenReads

/-- Tokens can be read up to their end exactly when they are a side that can be
read on its own and signs behind it. -/
theorem exists_kind?_iff
    {side : List Token}
    (plain : ∀ token ∈ side, token.hasParenthesis = false) :
    (∃ last, kind? .start side = some last) ↔
      ∃ former signs, side = former ++ List.map Token.sign signs ∧ IsAccepted former := by
  constructor
  · -- The induction takes tokens off the end, where the signs are.
    rintro ⟨last, reads⟩
    induction side using List.reverseRecOn generalizing last with
    | nil => exact ⟨[], [], rfl, [], rfl⟩
    | append_singleton former token inductionHypothesis =>
        obtain ⟨formerPlain, tokenPlain⟩ := List.forall_mem_append.mp plain
        have inTwo := reads
        rw [kind?_append] at inTwo
        obtain ⟨middle, formerReads, tokenReads⟩ := Option.bind_eq_some_iff.mp inTwo
        cases token with
        | sign sign =>
            obtain ⟨accepted, signs, rfl, isAccepted⟩ :=
              inductionHypothesis formerPlain middle formerReads
            refine ⟨accepted, signs ++ [sign], ?_, isAccepted⟩
            rw [List.map_append, List.append_assoc]
            rfl
        | equals => cases tokenReads
        | times => cases tokenReads
        | literal text =>
            refine ⟨former ++ [.literal text], [], (List.append_nil _).symm, ?_⟩
            refine isAccepted_iff_kind?.mpr ⟨last, reads, ?_⟩
            have notParenthesis := isParenthesis_eq_false (tokenPlain _ (List.mem_singleton_self _))
            rw [eq_afterTerm_of_kind?_literal notParenthesis tokenReads]
            exact nofun
  · rintro ⟨former, signs, rfl, isAccepted⟩
    obtain ⟨last, reads, _⟩ := isAccepted_iff_kind?.mp isAccepted
    rw [kind?_append, reads, Option.bind_some]
    by_cases empty : signs = []
    · exact ⟨last.kind, by rw [empty, List.map_nil, kind?_nil]⟩
    · exact ⟨_, kind?_signs last empty⟩

end Side

namespace Equation

/-- Wherever a side is moved to, it can be read exactly when it can be read on
its own. -/
theorem kind?_subtract
    {side : List Token}
    (plain : ∀ token ∈ side, token.hasParenthesis = false)
    (nonempty : side ≠ [])
    (reading : Side.Reading) : Side.kind? reading (subtract side) = Side.kind? .start side := by
  obtain ⟨first, rest, rfl⟩ := List.exists_cons_of_ne_nil nonempty
  cases first with
  | sign sign =>
      rw [subtract_sign, Side.kind?_sign, Side.kind?_sign]
      exact (Side.kind?_congr (by rfl) rest .minus).symm
  | equals => rfl
  | times => rfl
  | literal text =>
      have notParenthesis := Side.isParenthesis_eq_false (plain _ List.mem_cons_self)
      rw [subtract_literal, Side.kind?_sign,
        Side.kind?_literal (Side.Reading.signed_ne_afterTerm _) notParenthesis,
        Side.kind?_literal Side.Reading.start_ne_afterTerm notParenthesis,
        Side.kind?_congr rfl rest .minus]
      rfl

/-- A right-hand side moved to the left can be read when it can be read on its
own, and what stands in front of it can be read up to its end. -/
theorem isAccepted_append_subtract_iff
    {left right : List Token}
    (leftPlain : ∀ token ∈ left, token.hasParenthesis = false)
    (rightPlain : ∀ token ∈ right, token.hasParenthesis = false)
    (nonempty : right ≠ []) :
    Side.IsAccepted (left ++ subtract right) ↔
      (∃ former signs, left = former ++ List.map Token.sign signs ∧ Side.IsAccepted former) ∧
        Side.IsAccepted right := by
  have inTwo : Side.kind? .start (left ++ subtract right) =
      (Side.kind? .start left).bind fun _ => Side.kind? .start right := by
    rw [Side.kind?_append]
    simp only [kind?_subtract rightPlain nonempty]
  rw [← Side.exists_kind?_iff leftPlain, Side.isAccepted_iff_kind?, Side.isAccepted_iff_kind?,
    inTwo]
  constructor
  · rintro ⟨last, reads, notSigned⟩
    obtain ⟨middle, leftReads, rightReads⟩ := Option.bind_eq_some_iff.mp reads
    exact ⟨⟨middle, leftReads⟩, last, rightReads, notSigned⟩
  · rintro ⟨⟨middle, leftReads⟩, last, rightReads, notSigned⟩
    exact ⟨last, Option.bind_eq_some_iff.mpr ⟨middle, leftReads, rightReads⟩, notSigned⟩

/-- The ways to cut tokens into the sides of an equation. -/
structure IsCut
    (tokens left right : List Token) : Prop where
  tokens_eq : tokens = left ++ .equals :: right
  left_noEquals : .equals ∉ left
  right_noEquals : .equals ∉ right
  right_nonempty : right ≠ []

theorem isCut_of_ofTokens
    {tokens : List Token}
    {equation : Equation}
    (cut : ofTokens tokens = .ok equation) : IsCut tokens equation.left equation.right := by
  obtain ⟨tokens_eq, leftNone, rightNone, nonempty⟩ := ofTokens_eq_ok_iff.mp cut
  exact ⟨tokens_eq, leftNone, rightNone, nonempty⟩

/-- There is only one left-hand side. -/
theorem IsCut.left_eq
    {tokens left right otherLeft otherRight : List Token}
    (cut : IsCut tokens left right)
    (otherCut : IsCut tokens otherLeft otherRight) : otherLeft = left := by
  rw [← takeWhile_ne_equals otherCut.left_noEquals otherRight, ← otherCut.tokens_eq, cut.tokens_eq,
    takeWhile_ne_equals cut.left_noEquals]

end Equation

/-! ## Texts without parentheses -/

/-- Whether a text has a canonical form. -/
def IsAccepted
    (order : PowerOrder)
    (text : String) : Prop :=
  ∃ canonical, canonicalForm order text = .ok canonical

/-- Whether a text is cut into two sides that can both be read on their own. -/
def SidesAreAccepted (text : String) : Prop :=
  ∃ left right, Equation.IsCut (Token.scan text) left right ∧
    Side.IsAccepted left ∧ Side.IsAccepted right

/-- Whether a text is cut into two sides that could both be read on their own
without the signs at the end of its left-hand side. -/
def LeftSideDangles (text : String) : Prop :=
  ∃ left signs right, signs ≠ [] ∧
    Equation.IsCut (Token.scan text) (left ++ List.map Token.sign signs) right ∧
    Side.IsAccepted left ∧ Side.IsAccepted right

/-- A text without parentheses has a canonical form exactly when its left-hand
side can be read with its right-hand side moved to it. -/
theorem isAccepted_iff_exists_cut
    {text : String}
    (plain : ∀ c ∈ text.toList, c ≠ '(' ∧ c ≠ ')')
    (order : PowerOrder) :
    IsAccepted order text ↔
      ∃ left right, Equation.IsCut (Token.scan text) left right ∧
        Side.IsAccepted (left ++ Equation.subtract right) := by
  have opens := Group.openAll_plain (Token.plain_of_mem_scan plain)
  constructor
  · rintro ⟨canonical, accepted⟩
    obtain ⟨terms, found, _⟩ := canonicalForm_eq_ok_iff.mp accepted
    obtain ⟨opened, equation, sideTerms, scanOpens, cut, sideRead, _⟩ :=
      canonicalTerms_eq_ok_iff.mp found
    obtain rfl := Except.ok.inj (opens.symm.trans scanOpens)
    exact ⟨equation.left, equation.right, Equation.isCut_of_ofTokens cut, sideTerms, sideRead⟩
  · rintro ⟨left, right, ⟨tokens, leftNone, rightNone, nonempty⟩, sideTerms, sideRead⟩
    have cut := Equation.ofTokens_append_equals leftNone rightNone nonempty
    rw [← tokens] at cut
    exact ⟨_, canonicalForm_eq_ok_iff.mpr ⟨_, canonicalTerms_eq_ok_iff.mpr
      ⟨_, _, sideTerms, opens, cut, sideRead, rfl⟩, rfl⟩⟩

/-- A text without parentheses has a canonical form if both sides can be read on
their own, but also if signs dangle at the end of the left-hand side. -/
theorem isAccepted_iff
    {text : String}
    (plain : ∀ c ∈ text.toList, c ≠ '(' ∧ c ≠ ')')
    (order : PowerOrder) :
    IsAccepted order text ↔ SidesAreAccepted text ∨ LeftSideDangles text := by
  have moved_iff : ∀ left right, Equation.IsCut (Token.scan text) left right →
      (Side.IsAccepted (left ++ Equation.subtract right) ↔
        (∃ former signs, left = former ++ List.map Token.sign signs ∧ Side.IsAccepted former) ∧
          Side.IsAccepted right) := by
    intro left right cut
    have tokensPlain := Token.plain_of_mem_scan plain
    rw [cut.tokens_eq] at tokensPlain
    obtain ⟨leftPlain, rightPlain⟩ := List.forall_mem_append.mp tokensPlain
    exact Equation.isAccepted_append_subtract_iff leftPlain
      (List.forall_mem_cons.mp rightPlain).2 cut.right_nonempty
  rw [isAccepted_iff_exists_cut plain]
  constructor
  · rintro ⟨left, right, cut, moved⟩
    obtain ⟨⟨former, signs, rfl, formerAccepted⟩, rightAccepted⟩ := (moved_iff _ right cut).mp moved
    by_cases empty : signs = []
    · subst empty
      rw [List.map_nil, List.append_nil] at cut
      exact .inl ⟨former, right, cut, formerAccepted, rightAccepted⟩
    · exact .inr ⟨former, signs, right, empty, cut, formerAccepted, rightAccepted⟩
  · rintro (⟨left, right, cut, leftAccepted, rightAccepted⟩ |
      ⟨former, signs, right, _, cut, formerAccepted, rightAccepted⟩)
    · exact ⟨left, right, cut, (moved_iff left right cut).mpr
        ⟨⟨left, [], (List.append_nil left).symm, leftAccepted⟩, rightAccepted⟩⟩
    · exact ⟨_, right, cut, (moved_iff _ right cut).mpr
        ⟨⟨former, signs, rfl, formerAccepted⟩, rightAccepted⟩⟩

/-- A left-hand side with signs at its end cannot be read on its own. -/
theorem LeftSideDangles.not_sidesAreAccepted
    {text : String}
    (dangles : LeftSideDangles text) : ¬SidesAreAccepted text := by
  obtain ⟨former, signs, _, nonempty, cut, _, _⟩ := dangles
  rintro ⟨left, _, otherCut, leftAccepted, _⟩
  rw [cut.left_eq otherCut] at leftAccepted
  exact Side.not_isAccepted_append_signs former nonempty leftAccepted

/-- Which texts without parentheses have a canonical form.  It is those whose
two sides can be read on their own, except where signs dangle at the end of the
left-hand side. -/
theorem isAccepted_iff_sidesAreAccepted_iff
    {text : String}
    (plain : ∀ c ∈ text.toList, c ≠ '(' ∧ c ≠ ')')
    (order : PowerOrder) :
    (IsAccepted order text ↔ SidesAreAccepted text ∨ LeftSideDangles text) ∧
      ((IsAccepted order text ↔ SidesAreAccepted text) ↔ ¬LeftSideDangles text) := by
  have accepted := isAccepted_iff plain order
  refine ⟨accepted, ?_, ?_⟩
  · intro sides dangles
    exact dangles.not_sidesAreAccepted (sides.mp (accepted.mpr (.inr dangles)))
  · intro notDangling
    rw [accepted]
    exact or_iff_left notDangling

/-- The left-hand side of `x + = 0` ends with a sign, and yet the equation has a
canonical form. -/
theorem isAccepted_with_dangling_sign :
    (∀ c ∈ "x + = 0".toList, c ≠ '(' ∧ c ≠ ')') ∧
      canonicalForm .textual "x + = 0" = .ok "x = 0" ∧
      Side.terms [.literal "x", .sign .plus] = .error (.misplacedToken "+" 1) ∧
      LeftSideDangles "x + = 0" ∧
      ¬(IsAccepted .textual "x + = 0" ↔ SidesAreAccepted "x + = 0") := by
  have plain : ∀ c ∈ "x + = 0".toList, c ≠ '(' ∧ c ≠ ')' := by simp
  have dangles : LeftSideDangles "x + = 0" := by
    refine ⟨[.literal "x"], [.plus], [.literal "0"], by decide,
      ⟨by rfl, by decide, by decide, by decide⟩, ?_, ?_⟩
    · exact ⟨[⟨.plus, none, ⟨"x", ""⟩⟩], by rfl⟩
    · exact ⟨[Term.constant .plus 0], by rfl⟩
  refine ⟨plain, by decide +kernel, by rfl, dangles, fun sides => ?_⟩
  exact (isAccepted_iff_sidesAreAccepted_iff plain .textual).2.mp sides dangles

end CanonicalEquation
