import CanonicalEquation.Proofs.Text.Words
import Mathlib.Data.List.TakeWhile

/-!
# Lines of a text

A text that is written as lines, each with a line feed behind it, is read as
these lines again.  What ends a line is blank, so a line can be trimmed with or
without its end.
-/

namespace CanonicalEquation
namespace Text

/-! ## Cutting -/

section Cutting

variable {α : Type}
variable [DecidableEq α]
variable {stop : α}

theorem cutAfter_eq_nil_iff {symbols : List α} : cutAfter stop symbols = [] ↔ symbols = [] := by
  constructor
  · intro noPieces
    rw [← flatten_cutAfter stop symbols, noPieces, List.flatten_nil]
  · rintro rfl
    rfl

theorem cutAfter_append_cons
    {piece : List α}
    (absent : stop ∉ piece)
    (rest : List α) :
    cutAfter stop (piece ++ stop :: rest) = (piece ++ [stop]) :: cutAfter stop rest := by
  induction piece with
  | nil => exact if_pos rfl
  | cons symbol others inductionHypothesis =>
      rw [List.mem_cons, not_or] at absent
      rw [List.cons_append, cutAfter, if_neg (Ne.symm absent.1), inductionHypothesis absent.2]
      rfl

/-- A piece has no `stop` but at its end. -/
theorem exists_body_of_mem_cutAfter
    {symbols piece : List α}
    (member : piece ∈ cutAfter stop symbols) :
    ∃ body, stop ∉ body ∧ (piece = body ∨ piece = body ++ [stop]) := by
  induction symbols generalizing piece with
  | nil => cases member
  | cons symbol rest inductionHypothesis =>
      by_cases stops : symbol = stop
      · rw [cutAfter, if_pos stops] at member
        rcases List.mem_cons.mp member with rfl | inRest
        · exact ⟨[], List.not_mem_nil, .inr (congrArg (fun first => [first]) stops)⟩
        · exact inductionHypothesis inRest
      · have extend : ∀ former ∈ cutAfter stop rest, ∃ body, stop ∉ body ∧
            (symbol :: former = body ∨ symbol :: former = body ++ [stop]) := by
          intro former inRest
          obtain ⟨body, absent, ends⟩ := inductionHypothesis inRest
          refine ⟨symbol :: body, ?_,
            ends.imp (congrArg (symbol :: ·)) (congrArg (symbol :: ·))⟩
          rw [List.mem_cons, not_or]
          exact ⟨Ne.symm stops, absent⟩
        rw [cutAfter, if_neg stops] at member
        cases cut : cutAfter stop rest with
        | nil =>
            rw [cut] at member
            obtain rfl := List.mem_singleton.mp member
            exact ⟨[symbol], by simpa using Ne.symm stops, .inl rfl⟩
        | cons former others =>
            rw [cut] at member
            rcases List.mem_cons.mp member with rfl | inOthers
            · exact extend former (cut ▸ List.mem_cons_self)
            · exact inductionHypothesis (cut ▸ List.mem_cons_of_mem former inOthers)

end Cutting

/-! ## The end of a line -/

theorem dropLineEnd_of_notMem
    {line : List Char}
    (absent : '\n' ∉ line) : dropLineEnd line = line := by
  unfold dropLineEnd
  split
  next rest reversed => exact absurd (List.mem_reverse.mp (reversed ▸ List.mem_cons_self)) absent
  next rest _ reversed => exact absurd (List.mem_reverse.mp (reversed ▸ List.mem_cons_self)) absent
  · rfl

theorem dropLineEnd_concat (line : List Char) :
    dropLineEnd (line ++ ['\n']) = if line.getLast? = some '\r' then line.dropLast else line := by
  rcases List.eq_nil_or_concat line with rfl | ⟨body, last, rfl⟩
  · rfl
  · rw [List.concat_eq_append, List.getLast?_concat, List.dropLast_concat, dropLineEnd,
      List.reverse_append, List.reverse_append, List.reverse_singleton, List.reverse_singleton]
    by_cases carriageReturn : last = '\r'
    · rw [if_pos (congrArg some carriageReturn), carriageReturn]
      exact List.reverse_reverse body
    · rw [if_neg fun equal => carriageReturn (Option.some.inj equal)]
      simp only [List.singleton_append]
      split
      next rest equal => exact absurd (List.cons.inj (List.cons.inj equal).2).1 carriageReturn
      next rest _ equal =>
        rw [← (List.cons.inj equal).2, List.reverse_cons, List.reverse_reverse]
      next _ noEnd => exact absurd rfl (noEnd _)

/-- What ends a line is blank. -/
theorem exists_lineEnd (line : List Char) :
    ∃ ending, line = dropLineEnd line ++ ending ∧ ∀ c ∈ ending, isBlank c = true := by
  unfold dropLineEnd
  split
  next rest reversed =>
    refine ⟨['\r', '\n'], ?_,
      List.forall_mem_cons.mpr ⟨rfl, List.forall_mem_singleton.mpr rfl⟩⟩
    rw [← List.reverse_reverse line, reversed, List.reverse_cons, List.reverse_cons,
      List.append_assoc]
    rfl
  next rest _ reversed =>
    refine ⟨['\n'], ?_, List.forall_mem_singleton.mpr rfl⟩
    rw [← List.reverse_reverse line, reversed, List.reverse_cons]
  · exact ⟨[], (List.append_nil line).symm, List.forall_mem_nil _⟩

/-! ## Writing lines -/

/-- The texts that are read as one line when a line feed is put behind them. -/
structure IsLine (text : List Char) : Prop where
  noLineFeed : '\n' ∉ text
  noCarriageReturn : text.getLast? ≠ some '\r'

theorem IsLine.dropLineEnd
    {text : List Char}
    (isLine : IsLine text) : Text.dropLineEnd (text ++ ['\n']) = text := by
  rw [dropLineEnd_concat, if_neg isLine.noCarriageReturn]

theorem toList_intercalate_lineFeed
    {texts : List String}
    (nonempty : texts ≠ []) :
    ("\n".intercalate texts ++ "\n").toList = texts.flatMap fun text => text.toList ++ ['\n'] := by
  induction texts with
  | nil => exact absurd rfl nonempty
  | cons first rest inductionHypothesis =>
      cases rest with
      | nil =>
          rw [String.intercalate_singleton, String.toList_append, List.flatMap_singleton]
          rfl
      | cons second others =>
          have restText := inductionHypothesis (List.cons_ne_nil second others)
          rw [String.toList_append] at restText
          rw [String.intercalate_cons_of_ne_nil (List.cons_ne_nil second others),
            String.toList_append, String.toList_append, List.append_assoc, restText,
            String.toList_append, List.flatMap_cons]
          rfl

/-- Lines that are written with a line feed behind each are the lines of what
is written. -/
theorem lines_intercalate
    {texts : List String}
    (nonempty : texts ≠ [])
    (areLines : ∀ text ∈ texts, IsLine text.toList) :
    lines ("\n".intercalate texts ++ "\n") = texts := by
  have cut : ∀ texts : List String, (∀ text ∈ texts, IsLine text.toList) →
      cutAfter '\n' (texts.flatMap fun text => text.toList ++ ['\n']) =
        texts.map fun text => text.toList ++ ['\n'] := by
    intro texts areLines
    induction texts with
    | nil => rfl
    | cons first rest inductionHypothesis =>
        obtain ⟨firstIsLine, restAreLines⟩ := List.forall_mem_cons.mp areLines
        rw [List.flatMap_cons, List.append_assoc, List.singleton_append,
          cutAfter_append_cons firstIsLine.noLineFeed, inductionHypothesis restAreLines,
          List.map_cons]
  rw [lines, toList_intercalate_lineFeed nonempty, cut texts areLines, List.map_map]
  refine (List.map_congr_left fun text member => ?_).trans (List.map_id texts)
  rw [Function.comp_apply, (areLines text member).dropLineEnd, String.ofList_toList, id]

/-! ## Reading lines -/

/-- Only the empty text has no lines. -/
theorem lines_eq_nil_iff {text : String} : lines text = [] ↔ text = "" := by
  rw [lines, List.map_eq_nil_iff, cutAfter_eq_nil_iff, String.toList_eq_nil_iff]

/-- No line feed is left in the lines of a text. -/
theorem lineFeed_notMem_of_mem_lines
    {text line : String}
    (member : line ∈ lines text) : '\n' ∉ line.toList := by
  obtain ⟨piece, inPieces, rfl⟩ := List.mem_map.mp member
  rw [String.toList_ofList]
  obtain ⟨body, absent, rfl | rfl⟩ := exists_body_of_mem_cutAfter inPieces
  · rw [dropLineEnd_of_notMem absent]
    exact absent
  · rw [dropLineEnd_concat]
    split
    · exact fun inLine => absent (List.dropLast_subset body inLine)
    · exact absent

/-! ## Trimming lines -/

/-- A line is trimmed with or without what ends it. -/
theorem trim_dropLineEnd (line : List Char) : trim (dropLineEnd line) = trim line := by
  obtain ⟨ending, split, blank⟩ := exists_lineEnd line
  conv_rhs => rw [split]
  exact (trim_append_of_blank (dropLineEnd line) blank).symm

end Text
end CanonicalEquation
