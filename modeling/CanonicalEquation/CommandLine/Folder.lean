/-!
# Folders

The folder that the program works in: its files and the folders in it, each
under its path.  A path is followed name by name, so that every name but the
last has to be a folder, also one that `.` or `..` comes back from.  A path
that leaves the folder names nothing.  There is a limit to the length of a path
as it is written, whatever it leads to, and to the length of each name.
-/

namespace CanonicalEquation
namespace CommandLine

/-- What a folder holds under a path. -/
inductive Entry where
  /-- A file that is UTF-8. -/
  | text (content : String)
  /-- A file that is not UTF-8. -/
  | binary (content : ByteArray)
  /-- A folder. -/
  | folder

/-- Why a file cannot be written. -/
inductive WriteError where
  /-- A folder stands in its place. -/
  | folderInTheWay
  /-- Its path or its name is too long. -/
  | nameTooLong
deriving DecidableEq

/-- The reason that is given for a write error. -/
def WriteError.reason : WriteError → String
  | folderInTheWay => "Is a directory (os error 21)"
  | nameTooLong => "File name too long (os error 36)"

/-- A folder with what it holds, under the names that lead there. -/
structure Folder where
  /-- The entries and the names on the way to them. -/
  entries : List (List String × Entry)

namespace Folder

/-- What a folder holds under names. -/
def find? (folder : Folder) (names : List String) : Option Entry :=
  (folder.entries.find? fun entry => entry.1 == names).map Prod.snd

/-- Whether names lead to a folder.  What holds an entry is a folder, whether
or not it is an entry itself. -/
def isFolder (folder : Folder) (names : List String) : Bool :=
  folder.entries.any fun entry =>
    match entry.2 with
    | .folder => names.isPrefixOf entry.1
    | _ => names.isPrefixOf entry.1 && names != entry.1

/-- Follows a path from the folder that names lead to. -/
def follow? (folder : Folder) (names : List String) :
    List String → Option (List String)
  | [] => some names
  | name :: rest =>
      if !names.isEmpty && !folder.isFolder names then
        none
      else if name = "" || name = "." then
        folder.follow? names rest
      else if name = ".." then
        if names.isEmpty then none else folder.follow? names.dropLast rest
      else
        folder.follow? (names ++ [name]) rest

/-- The longest path that can be followed, in bytes. -/
def maxPathLength : Nat := 4095

/-- The longest name that an entry may have, in bytes. -/
def maxNameLength : Nat := 255

/-- The names that a path stands for. -/
def resolve? (folder : Folder) (path : String) : Option (List String) :=
  if maxPathLength < path.utf8ByteSize then
    none
  else
    match path.toList.splitOn '/' with
    | [] :: _ => none
    | names => folder.follow? [] (names.map String.ofList)

/-- What a path stands for, if the folder holds it. -/
def lookup? (folder : Folder) (path : String) : Option (List String × Entry) := do
  let names ← folder.resolve? path
  let entry ← folder.find? names
  return (names, entry)

/-- Puts a text in the place of a file, which a path leads to under the given
names. -/
def write
    (folder : Folder)
    (path : String)
    (names : List String)
    (content : String) : Except WriteError Folder :=
  if maxPathLength < path.utf8ByteSize then
    .error .nameTooLong
  else if names.any fun name => maxNameLength < name.utf8ByteSize then
    .error .nameTooLong
  else if folder.isFolder names then
    .error .folderInTheWay
  else
    .ok ⟨(names, .text content) :: folder.entries.filter fun entry => entry.1 != names⟩

end Folder
end CommandLine
end CanonicalEquation
