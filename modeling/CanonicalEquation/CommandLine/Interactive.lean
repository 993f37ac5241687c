import CanonicalEquation.Report

/-!
# Interactive use

A prompt is written before each line is read, and once more at the end of the
input.  A blank line has no answer.  The report on any other line, without the
blanks at its ends, goes to the standard output or, if it has the mark of an
error, to the standard error.
-/

namespace CanonicalEquation
namespace CommandLine
namespace Interactive

/-- What is written before a line is read. -/
def prompt : String := ">"

/-- What is written on a line, to the standard output and to the standard
error. -/
def answer (order : PowerOrder) (line : String) : String × String :=
  let trimmed := Text.trim line.toList
  if trimmed.isEmpty then
    ("", "")
  else
    let report := Report.ofLine order (String.ofList trimmed)
    let written := "==>" ++ report ++ "\n"
    if Report.isMarked report then ("", written) else (written, "")

/-- What follows on a line of input, which is none if it is not UTF-8: an answer,
after which the next line is read, or the end of the run. -/
def respond (order : PowerOrder) : Option String → Except Outcome (String × String)
  | some line => .ok (answer order line)
  | none => .error (.failure notTextReason)

/-- What follows on the end of the input. -/
def finish : Outcome := .success ""

/-- The answers to lines of input, of which a line that is not UTF-8 is given
as none. -/
def run (order : PowerOrder) : List (Option String) → Outcome
  | [] => finish.after prompt ""
  | line :: rest =>
      match respond order line with
      | .ok written => (run order rest).after (prompt ++ written.1) written.2
      | .error last => last.after prompt ""

/-- The lines of a text as they are read, with what ends them. -/
def inputLines (text : String) : List (Option String) :=
  (Text.cutAfter '\n' text.toList).map fun line => some (String.ofList line)

end Interactive
end CommandLine
end CanonicalEquation
