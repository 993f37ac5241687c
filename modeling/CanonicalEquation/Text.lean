/-!
# Texts

How a text is cut into words and into lines.

The characters that separate the tokens of an equation are those with the
Unicode property White_Space.  The terms inside parentheses are separated by
the four blanks of the term grammar only.  So which characters are blank is an
argument where a text is cut into words, the maximal runs of other characters.

A line feed ends a line, and belongs to the line that it ends.  Cutting is
generic in the kind of symbol, so that bytes and characters are cut by one
rule; `lines` gives the lines of a text without what ended them.
-/

namespace CanonicalEquation
namespace Text

/-! ## Blank characters -/

/-- The ranges of code points that have the property White_Space, in ascending
order, both ends included. -/
def blankRanges : List (Nat × Nat) :=
  [(0x0009, 0x000D), (0x0020, 0x0020), (0x0085, 0x0085), (0x00A0, 0x00A0),
   (0x1680, 0x1680), (0x2000, 0x200A), (0x2028, 0x2029), (0x202F, 0x202F),
   (0x205F, 0x205F), (0x3000, 0x3000)]

/-- Whether a character has the property White_Space. -/
def isBlank (c : Char) : Bool :=
  blankRanges.any fun range => range.1 ≤ c.toNat && c.toNat ≤ range.2

/-- The blanks of the term grammar: space, tab, carriage return, line feed. -/
def isTermBlank (c : Char) : Bool :=
  c == ' ' || c == '\t' || c == '\r' || c == '\n'

/-- The blanks of the term grammar are blanks. -/
theorem isBlank_of_isTermBlank {c : Char} (blank : isTermBlank c = true) :
    isBlank c = true := by
  simp only [isTermBlank, Bool.or_eq_true, beq_iff_eq] at blank
  rcases blank with ((rfl | rfl) | rfl) | rfl <;> decide

/-! ## Words -/

/-- The words of a text, in order. -/
def words (blank : Char → Bool) (text : List Char) : List (List Char) :=
  (text.splitOnP blank).filter fun word => !word.isEmpty

/-- A text without the blank characters at its two ends. -/
def trim (text : List Char) : List Char :=
  ((text.dropWhile isBlank).reverse.dropWhile isBlank).reverse

/-! ## Lines -/

/-- Cuts a list after each `stop`.  Every piece but the last ends in `stop`,
and no piece is empty. -/
def cutAfter [DecidableEq α] (stop : α) : List α → List (List α)
  | [] => []
  | symbol :: rest =>
      if symbol = stop then
        [symbol] :: cutAfter stop rest
      else
        match cutAfter stop rest with
        | [] => [[symbol]]
        | piece :: pieces => (symbol :: piece) :: pieces

/-- Nothing is lost when a list is cut. -/
theorem flatten_cutAfter [DecidableEq α] (stop : α) (symbols : List α) :
    (cutAfter stop symbols).flatten = symbols := by
  induction symbols with
  | nil => rfl
  | cons symbol rest inductionHypothesis =>
      unfold cutAfter
      split
      · rw [List.flatten_cons, inductionHypothesis, List.singleton_append]
      · split
        next empty =>
          rw [empty, List.flatten_nil] at inductionHypothesis
          rw [← inductionHypothesis, List.flatten_cons, List.flatten_nil, List.append_nil]
        next piece pieces equal =>
          rw [equal, List.flatten_cons] at inductionHypothesis
          rw [List.flatten_cons, List.cons_append, inductionHypothesis]

/-- A line without its line feed, and without the carriage return in front of
that line feed.  A line that no line feed ends stays as it is. -/
def dropLineEnd (line : List Char) : List Char :=
  match line.reverse with
  | '\n' :: '\r' :: rest => rest.reverse
  | '\n' :: rest => rest.reverse
  | _ => line

/-- The lines of a text, without what ends them. -/
def lines (text : String) : List String :=
  (cutAfter '\n' text.toList).map fun line => String.ofList (dropLineEnd line)

end Text
end CanonicalEquation
