import CanonicalEquation.Term.Order

/-!
# Arguments

This is outer layer: it stands for the library that reads the declared options,
and no theorem is about it.  The theorems are about what a request does.

The arguments are read from left to right.  A request for the version or the
help is answered as soon as it is read, so only a fault in front of it counts.
That a file is named both by an option and by position is a fault of the
arguments as a whole, found at their end.
-/

namespace CanonicalEquation
namespace CommandLine

/-- What the arguments ask for. -/
inductive Request where
  /-- The name and version of the program. -/
  | version
  /-- The help text. -/
  | help
  /-- To answer the lines of the standard input. -/
  | interactive (order : PowerOrder)
  /-- To report on the lines of a file. -/
  | batch (order : PowerOrder) (path : String)
deriving DecidableEq

/-- What kind of argument a text is. -/
inductive Argument where
  /-- The end of the options. -/
  | endOfOptions
  /-- An option with a long name, and the value attached to it. -/
  | long (name : String) (value : Option String)
  /-- Options of one letter each. -/
  | short (letters : List Char)
  /-- No option. -/
  | plain (text : String)

/-- The kind of an argument.  A single hyphen is no option. -/
def Argument.ofText (text : String) : Argument :=
  match text.toList with
  | ['-', '-'] => .endOfOptions
  | '-' :: '-' :: rest =>
      let name := String.ofList (rest.takeWhile (· != '='))
      match rest.dropWhile (· != '=') with
      | [] => .long name none
      | _ :: value => .long name (some (String.ofList value))
  | '-' :: first :: rest => .short (first :: rest)
  | _ => .plain text

/-- What has been read of the arguments. -/
structure Settings where
  /-- The file named by the option. -/
  named : Option String
  /-- The file named by position. -/
  positional : Option String
  /-- Whether powers are compared as numbers. -/
  numericPowers : Bool

namespace Settings

/-- The settings before anything is read. -/
def start : Settings := ⟨none, none, false⟩

/-- The settings with the value of the file option, which may be given once
and not be empty. -/
def addNamed? (settings : Settings) (path : String) : Option Settings :=
  if settings.named.isSome || path.isEmpty then
    none
  else
    some { settings with named := some path }

/-- The settings with a file named by position, which may be given once and
not be empty. -/
def addPositional? (settings : Settings) (path : String) : Option Settings :=
  if settings.positional.isSome || path.isEmpty then
    none
  else
    some { settings with positional := some path }

/-- The settings with powers compared as numbers, which may be asked once. -/
def addNumericPowers? (settings : Settings) : Option Settings :=
  if settings.numericPowers then
    none
  else
    some { settings with numericPowers := true }

/-- The order of powers that is asked for. -/
def order (settings : Settings) : PowerOrder :=
  if settings.numericPowers then .numerical else .textual

/-- What complete settings ask for. -/
def request? (settings : Settings) : Option Request :=
  match settings.named, settings.positional with
  | some _, some _ => none
  | some path, none => some (.batch settings.order path)
  | none, some path => some (.batch settings.order path)
  | none, none => some (.interactive settings.order)

end Settings

namespace Request

/-- Reads arguments behind the end of the options, all of them positions. -/
def ofPositions? (settings : Settings) : List String → Option Request
  | [] => settings.request?
  | argument :: rest => do
      let next ← settings.addPositional? argument
      ofPositions? next rest

/-- Reads arguments.  There is no request if they are at fault. -/
def ofArguments? (settings : Settings) : List String → Option Request
  | [] => settings.request?
  | argument :: rest =>
      match Argument.ofText argument with
      | .endOfOptions => ofPositions? settings rest
      | .plain path => do
          let next ← settings.addPositional? path
          ofArguments? next rest
      | .short ('V' :: _) | .long "version" none => some .version
      | .short ('h' :: _) | .long "help" none => some .help
      | .long "numeric-powers" none => do
          let next ← settings.addNumericPowers?
          ofArguments? next rest
      | .long "file" (some path) => do
          let next ← settings.addNamed? path
          ofArguments? next rest
      | .long "file" none =>
          match rest with
          | [] => none
          | value :: rest =>
              match Argument.ofText value with
              | .plain path => do
                  let next ← settings.addNamed? path
                  ofArguments? next rest
              | _ => none
      | _ => none

end Request
end CommandLine
end CanonicalEquation
