import CanonicalEquation.CommandLine.Interactive
import CanonicalEquation.Proofs.CommandLine.Batch

/-!
# Interactive use agrees with batch use

Interactive use cuts its input into lines with their ends and trims each, batch
use takes the lines of a file as they are.  The two report the same on a line,
since blanks at its ends change nothing but what an error repeats of it.
-/

namespace CanonicalEquation

/-! ## Blanks at the ends -/

/-- Blanks at the ends of a text make no tokens. -/
theorem Token.scan_trim (text : String) :
    scan (String.ofList (Text.trim text.toList)) = scan text := by
  rw [scan, String.toList_ofList, Text.words_trim text.toList fun _ _ blank => blank]
  rfl

theorem canonicalForm_trim
    (order : PowerOrder)
    (text : String) :
    canonicalForm order (String.ofList (Text.trim text.toList)) = canonicalForm order text := by
  rw [canonicalForm, Token.scan_trim]
  rfl

namespace CommandLine
namespace Interactive

/-! ## Answers -/

/-- A line as interactive use reports on it. -/
def trimmed (line : String) : String :=
  String.ofList (Text.trim line.toList)

/-- The record of a report on a line. -/
def record (order : PowerOrder) (line : String) : String :=
  "==>" ++ Report.ofLine order (trimmed line) ++ "\n"

/-- What is written on a line, to the standard output and to the standard
error. -/
inductive Answers (order : PowerOrder) (line : String) : String × String → Prop
  /-- Nothing on a blank line. -/
  | blank
      (blank : trimmed line = "") : Answers order line ("", "")
  /-- A record to the standard output on a line with a canonical form. -/
  | accepted
      {canonical : String}
      (notBlank : trimmed line ≠ "")
      (accepted : canonicalForm order (trimmed line) = .ok canonical) :
      Answers order line (record order line, "")
  /-- A record to the standard error on any other line. -/
  | rejected
      {error : Error}
      (notBlank : trimmed line ≠ "")
      (rejected : canonicalForm order (trimmed line) = .error error) :
      Answers order line ("", record order line)

theorem answers_answer
    (order : PowerOrder)
    (line : String) : Answers order line (answer order line) := by
  by_cases blank : (Text.trim line.toList).isEmpty = true
  · have isEmpty : trimmed line = "" := by
      rw [trimmed, List.isEmpty_iff.mp blank, String.ofList_nil]
    rw [answer, if_pos blank]
    exact .blank isEmpty
  · have notBlank : trimmed line ≠ "" := by
      intro isEmpty
      rw [trimmed, ← String.toList_eq_nil_iff, String.toList_ofList] at isEmpty
      exact blank (List.isEmpty_iff.mpr isEmpty)
    rw [answer, if_neg blank]
    cases result : canonicalForm order (trimmed line) with
    | ok canonical =>
        have unmarked := Report.isMarked_of_ok result
        rw [trimmed] at unmarked
        simp only [unmarked]
        exact .accepted notBlank result
    | error error =>
        have marked := isMarked_of_error result
        rw [trimmed] at marked
        simp only [marked]
        exact .rejected notBlank result

/-- What ends a line makes no difference to the answer. -/
theorem answer_dropLineEnd
    (order : PowerOrder)
    (line : List Char) :
    answer order (String.ofList (Text.dropLineEnd line)) = answer order (String.ofList line) := by
  rw [answer, answer, String.toList_ofList, String.toList_ofList, Text.trim_dropLineEnd]

/-! ## Runs -/

theorem run_some_cons
    (order : PowerOrder)
    (line : String)
    (rest : List (Option String)) :
    run order (some line :: rest) =
      (run order rest).after (prompt ++ (answer order line).1) (answer order line).2 := rfl

/-- A run on lines of text prompts for each of them and at their end, and writes
the answers in order. -/
theorem run_map_some
    (order : PowerOrder)
    (lines : List String) :
    run order (lines.map some) =
      ⟨0, String.join (lines.map fun line => prompt ++ (answer order line).1) ++ prompt,
        String.join (lines.map fun line => (answer order line).2)⟩ := by
  induction lines with
  | nil => rfl
  | cons line rest inductionHypothesis =>
      rw [List.map_cons, run_some_cons, inductionHypothesis, Outcome.after, List.map_cons,
        List.map_cons, String.join_cons, String.join_cons, ← String.append_assoc]

theorem run_inputLines
    (order : PowerOrder)
    (text : String) :
    run order (inputLines text) = run order ((Text.lines text).map some) := by
  have pieces : inputLines text = ((Text.cutAfter '\n' text.toList).map String.ofList).map some :=
    List.map_map.symm
  rw [pieces, run_map_some, run_map_some, Text.lines]
  simp only [List.map_map, Function.comp_def, answer_dropLineEnd]

/-- Interactive use of a text succeeds.  It prompts with `>` for each line and once
more at the end, and answers the lines in order: a blank line with nothing, any other
with one record, whose place tells whether the line has a canonical form.  Batch
use of the same text gives that line the same canonical form, or reports the
same error. -/
theorem run_agrees_with_reports
    (order : PowerOrder)
    (text : String) :
    (∃ answers : List (String × String),
      run order (inputLines text) =
        ⟨0, String.join (answers.map fun answer => ">" ++ answer.1) ++ ">",
          String.join (answers.map Prod.snd)⟩ ∧
      List.Forall₂ (Answers order) (Text.lines text) answers) ∧
    ∀ (position : Nat) (line : String),
      (Text.lines text)[position]? = some line → trimmed line ≠ "" →
      (∃ canonical, canonicalForm order (trimmed line) = .ok canonical ∧
        (Text.lines (Batch.reports order text))[position]? = some canonical) ∨
      (∃ error, canonicalForm order (trimmed line) = .error error ∧
        (Text.lines (Batch.reports order text))[position]? =
          some (Report.errorMark ++ line ++ "[" ++ error.message ++ "]")) := by
  refine ⟨⟨(Text.lines text).map (answer order), ?_, ?_⟩, ?_⟩
  · rw [run_inputLines, run_map_some, List.map_map, List.map_map]
    rfl
  · rw [List.forall₂_map_right_iff, List.forall₂_same]
    exact fun line _ => answers_answer order line
  · intro position line found notBlank
    have nonempty : text ≠ "" := by
      rintro rfl
      cases found
    have reported : (Text.lines (Batch.reports order text))[position]? =
        some (Report.ofLine order line) := by
      rw [Batch.lines_reports order nonempty, Report.ofLines, List.getElem?_map, found]
      rfl
    rw [reported, Report.ofLine, trimmed, canonicalForm_trim]
    cases canonicalForm order line with
    | ok canonical => exact .inl ⟨canonical, rfl, rfl⟩
    | error error => exact .inr ⟨error, rfl, rfl⟩

end Interactive
end CommandLine
end CanonicalEquation
