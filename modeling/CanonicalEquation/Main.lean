import CanonicalEquation.CommandLine.Run

/-!
# The program

Runs `CommandLine.program` on a computer: lines are read as bytes, and files are
those of the disk.  What is written, and which exit code a run has, is decided
by `CommandLine`; here are only the effects.
-/

namespace CanonicalEquation
namespace CommandLine

/-- Reads bytes up to the end of a line or of the input. -/
partial def readLine (input : IO.FS.Stream) (line : ByteArray) : IO ByteArray := do
  let byte ← input.read 1
  let line := line ++ byte
  if byte.isEmpty || byte.toList == [10] then
    return line
  else
    readLine input line

/-- Writes the texts of an outcome, and returns its exit code. -/
def present (outcome : Outcome) : IO UInt32 := do
  IO.print outcome.output
  IO.eprint outcome.errors
  return outcome.code.toUInt32

/-- Answers the lines of the standard input as they are read. -/
partial def converse (order : PowerOrder) : IO Outcome := do
  IO.print Interactive.prompt
  (← IO.getStdout).flush
  let line ← readLine (← IO.getStdin) .empty
  if line.isEmpty then
    return Interactive.finish
  match Interactive.respond order (String.fromUTF8? line) with
  | .ok (output, errors) =>
      IO.print output
      IO.eprint errors
      converse order
  | .error last => return last

/-- What a path leads to on the disk. -/
def lookupOnDisk? (path : String) : IO (Option (List String × Entry)) := do
  try
    let content ← IO.FS.readBinFile path
    let entry := match String.fromUTF8? content with
      | some text => Entry.text text
      | none => Entry.binary content
    return some (path.splitOn "/", entry)
  catch
    | .noFileOrDirectory .. | .inappropriateType .. | .invalidArgument .. => return none
    | error => throw error

/-- Writes a file of the disk. -/
def writeOnDisk (path content : String) : IO (Except String Unit) := do
  try
    IO.FS.writeFile path content
    return .ok ()
  catch
    | .inappropriateType .. => return .error WriteError.folderInTheWay.reason
    | .invalidArgument .. => return .error WriteError.nameTooLong.reason
    | error => throw error

/-- The standard input and the disk. -/
def computer : Surroundings IO where
  lookup? := lookupOnDisk?
  write path _ content := writeOnDisk path content
  converse := converse

end CommandLine
end CanonicalEquation

open CanonicalEquation.CommandLine in
/-- Runs the program. -/
def main (arguments : List String) : IO UInt32 := do
  try
    present (← program computer arguments)
  catch error => present (.failure (toString error))
