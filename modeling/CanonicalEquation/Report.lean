import CanonicalEquation.CanonicalForm

/-!
# Reports and outcomes

What is shown of a computation.  A report on one line of input is one text: the
canonical form, or a mark, the line and the message of the error.  The outcome
of a run of the program is its exit code, and what it wrote to the standard
output and to the standard error.
-/

namespace CanonicalEquation
namespace Report

/-- The mark in front of a report on an error. -/
def errorMark : String := "[ERROR]"

/-- The report on a line. -/
def ofLine (order : PowerOrder) (line : String) : String :=
  match canonicalForm order line with
  | .ok canonical => canonical
  | .error error => errorMark ++ line ++ "[" ++ error.message ++ "]"

/-- The reports on several lines. -/
def ofLines (order : PowerOrder) (lines : List String) : List String :=
  lines.map (ofLine order)

/-- Whether a report has the mark of an error. -/
def isMarked (report : String) : Bool :=
  errorMark.toList.isPrefixOf report.toList

end Report

namespace CommandLine

/-- What a run of the program shows. -/
structure Outcome where
  /-- The exit code. -/
  code : Nat
  /-- The text written to the standard output. -/
  output : String
  /-- The text written to the standard error. -/
  errors : String
deriving DecidableEq

namespace Outcome

/-- A run that succeeds with an output. -/
def success (output : String) : Outcome :=
  ⟨0, output, ""⟩

/-- A run that fails for a reason. -/
def failure (reason : String) : Outcome :=
  ⟨1, "", "error: " ++ reason ++ "\n"⟩

/-- The outcome with earlier output in front. -/
def after (output errors : String) (outcome : Outcome) : Outcome :=
  ⟨outcome.code, output ++ outcome.output, errors ++ outcome.errors⟩

end Outcome

/-- Why input that is not UTF-8 cannot be read. -/
def notTextReason : String := "stream did not contain valid UTF-8"

end CommandLine
end CanonicalEquation
