import CanonicalEquation.Sign
import CanonicalEquation.Text

/-!
# Tokens

The tokens of an equation are its words.  Four words of one character are
operators, and every other word is a literal: a term, a factor, or either with
parentheses attached.
-/

namespace CanonicalEquation

/-- A token of an equation. -/
inductive Token where
  /-- A sign that stands alone. -/
  | sign (mark : Sign)
  /-- The equality sign. -/
  | equals
  /-- The multiplication sign. -/
  | times
  /-- Any other word. -/
  | literal (text : String)
deriving DecidableEq

namespace Token

/-- The token that a word is. -/
def ofText (text : String) : Token :=
  if text = "+" then
    sign .plus
  else if text = "-" then
    sign .minus
  else if text = "=" then
    equals
  else if text = "*" then
    times
  else
    literal text

/-- The text of a token. -/
def text : Token → String
  | sign mark => mark.text
  | equals => "="
  | times => "*"
  | literal word => word

/-- Whether a token is a sign that stands alone. -/
def isSign : Token → Bool
  | sign _ => true
  | _ => false

/-- Whether a token is a literal that holds a parenthesis. -/
def hasParenthesis : Token → Bool
  | literal word => word.toList.any fun c => c == '(' || c == ')'
  | _ => false

/-- The tokens of a text. -/
def scan (text : String) : List Token :=
  (Text.words Text.isBlank text.toList).map fun word => ofText (String.ofList word)

/-- The text that has the given tokens, with single spaces between them. -/
def spacedText (tokens : List Token) : String :=
  " ".intercalate (tokens.map text)

end Token
end CanonicalEquation
