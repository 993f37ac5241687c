import CanonicalEquation.CommandLine.Arguments
import CanonicalEquation.CommandLine.Batch
import CanonicalEquation.CommandLine.Interactive

/-!
# A run of the program

The arguments say what the program does with its standard input or with a file.
What it needs of the place that it runs in is given by the effects of a monad;
`run` takes for that place a list of lines and a folder.

The help text and the text on arguments that are at fault are written by the
library that reads the arguments, and are left out.  Of both there is only the
exit code.
-/

namespace CanonicalEquation
namespace CommandLine

/-- The name and version of the program. -/
def versionText : String := "eqnorm 0.1.0\n"

/-- The outcome of a request for help, without its text. -/
def helpOutcome : Outcome := .success ""

/-- The outcome of arguments that are at fault, without its text. -/
def usageError : Outcome := ⟨2, "", ""⟩

/-- What the program needs of the place that it runs in. -/
structure Surroundings (place : Type → Type) extends Files place where
  /-- Answers the lines of the standard input. -/
  converse : PowerOrder → place Outcome

/-- Does what the arguments ask for. -/
def program
    [Monad place]
    (surroundings : Surroundings place)
    (arguments : List String) : place Outcome :=
  match Request.ofArguments? .start arguments with
  | none => return usageError
  | some .version => return .success versionText
  | some .help => return helpOutcome
  | some (.interactive order) => surroundings.converse order
  | some (.batch order path) => Batch.report surroundings.toFiles order path

/-- A place with the given lines on the standard input, and a folder. -/
def Surroundings.ofInput (input : List (Option String)) : Surroundings (StateM Folder) where
  toFiles := Folder.files
  converse order := return Interactive.run order input

/-- The outcome of a run, and the folder that it leaves. -/
def run
    (arguments : List String)
    (input : List (Option String))
    (folder : Folder) : Outcome × Folder :=
  ((program (.ofInput input) arguments).run folder).run

end CommandLine
end CanonicalEquation
