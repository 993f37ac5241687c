/-!
# Machines that read and write

A machine reads symbols one at a time.  A step may fail; otherwise it writes
some output and goes on from a new state.  What a machine does on two lists of
symbols in a row is what it does on the first and then, from where that ended,
on the second.
-/

namespace CanonicalEquation

/-- The steps of a machine: from a state and a symbol to the output and the
next state, or to an error. -/
abbrev Machine (state symbol output error : Type) : Type :=
  state → symbol → Except error (List output × state)

namespace Machine

/-- Reads a list of symbols from a state: all the output, and the last
state. -/
def run
    (machine : Machine state symbol output error)
    (start : state) : List symbol → Except error (List output × state)
  | [] => .ok ([], start)
  | first :: rest =>
      match machine start first with
      | .error error => .error error
      | .ok (written, next) =>
          match run machine next rest with
          | .error error => .error error
          | .ok (remaining, last) => .ok (written ++ remaining, last)

@[simp] theorem run_nil
    (machine : Machine state symbol output error)
    (start : state) :
    machine.run start [] = .ok ([], start) := rfl

/-- A machine reads two lists in a row as it reads the first and then the
second. -/
theorem run_append
    (machine : Machine state symbol output error)
    (start : state)
    (former latter : List symbol) :
    machine.run start (former ++ latter) =
      match machine.run start former with
      | .error error => .error error
      | .ok (written, middle) =>
          match machine.run middle latter with
          | .error error => .error error
          | .ok (remaining, last) => .ok (written ++ remaining, last) := by
  induction former generalizing start with
  | nil =>
      rw [List.nil_append, run_nil]
      cases latter_run : machine.run start latter <;> simp [latter_run]
  | cons first rest inductionHypothesis =>
      rw [List.cons_append, run, run]
      cases machine start first with
      | error error => rfl
      | ok result =>
          simp only [inductionHypothesis]
          cases machine.run result.2 rest with
          | error error => rfl
          | ok middle =>
              cases latter_run : machine.run middle.2 latter <;> simp [latter_run]

end Machine
end CanonicalEquation
