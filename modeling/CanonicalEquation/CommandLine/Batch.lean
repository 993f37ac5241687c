import CanonicalEquation.CommandLine.Folder
import CanonicalEquation.Report

/-!
# Batch use

The reports on the lines of a file are written to a second file, one report a
line.  Its path is the path of the first with `.out` behind it.

Files are found and written by the effects of a monad.  On a disk they are those
of the operating system; in a folder that is given as a value they are changes
of that value.
-/

namespace CanonicalEquation
namespace CommandLine

/-- How files are found and written, by the effects of a monad. -/
structure Files (place : Type → Type) where
  /-- What a path leads to, if anything, and the names that lead there. -/
  lookup? : String → place (Option (List String × Entry))
  /-- Puts a text in the place of a file, which a path leads to under the given
  names, or tells why it cannot. -/
  write : String → List String → String → place (Except String Unit)

/-- The files of a folder that is given as a value. -/
def Folder.files : Files (StateM Folder) where
  lookup? path := fun folder => (folder.lookup? path, folder)
  write path names content := fun folder =>
    match folder.write path names content with
    | .ok written => (.ok (), written)
    | .error error => (.error error.reason, folder)

namespace Batch

/-- What is put behind a path. -/
def reportSuffix : String := ".out"

/-- The path of the reports on a file. -/
def reportPath (path : String) : String :=
  path ++ reportSuffix

/-- The reports on the lines of a text, as they are written to a file. -/
def reports (order : PowerOrder) (content : String) : String :=
  "\n".intercalate (Report.ofLines order (Text.lines content)) ++ "\n"

/-- What is said when the reports on a file have been written. -/
def savedMessage (path : String) : String :=
  "File processed successfully. Results saved to " ++ reportPath path ++ "\n"

/-- Why a path that does not lead to a file cannot be read. -/
def missingReason (path : String) : String :=
  "file " ++ path ++ " does not exist"

/-- The names of the file of reports on the file with the given names. -/
def reportNames (names : List String) : List String :=
  match names.getLast? with
  | some name => names.dropLast ++ [reportPath name]
  | none => []

/-- Reports on a file. -/
def report
    [Monad place]
    (files : Files place)
    (order : PowerOrder)
    (path : String) : place Outcome := do
  match ← files.lookup? path with
  | some (names, .text content) =>
      match ← files.write (reportPath path) (reportNames names) (reports order content) with
      | .ok _ => return .success (savedMessage path)
      | .error reason => return .failure reason
  | some (_, .binary _) => return .failure notTextReason
  | _ => return .failure (missingReason path)

/-- Reports on a file of a folder. -/
def run (order : PowerOrder) (path : String) (folder : Folder) : Outcome × Folder :=
  ((report Folder.files order path).run folder).run

end Batch
end CommandLine
end CanonicalEquation
