import CanonicalEquation.Group.Multiplier
import CanonicalEquation.Machine
import CanonicalEquation.Term.Reading

/-!
# Opening groups

A group begins at a literal that starts with an opening parenthesis, and ends
at the first literal that ends with the closing one.  Groups do not nest, and
a closing parenthesis is the last character of its literal.

One pass over the tokens, from left to right, opens every group.  A group that
factors or a `-` multiply is replaced by its multiplied terms; any other group
stays as it is written, behind its `+` if it has one.  The content of either
has to be a sequence of terms.

The pass is a machine with four states that reads one token at a time.  It
holds back the tokens behind the last group, since the next group may use the
nearest of them as its factors and its sign.
-/

namespace CanonicalEquation
namespace Group

/-! ## The boundary of a group -/

/-- Whether a literal of a group ends it.  Of the literal that begins the
group, `inner` is what follows the opening parenthesis; of any other it is the
whole literal. -/
def closes (literal : String) (inner : List Char) : Except GroupError Bool :=
  if inner.contains '(' then
    .error (.nested literal)
  else
    match inner.dropWhile (· != ')') with
    | [] => .ok false
    | [_] => .ok true
    | _ => .error (.unbalanced literal)

/-- What the parentheses of a group enclose, as text without blanks at its
ends. -/
def enclosedText (group : List Token) : String :=
  String.ofList (Text.trim ((Token.spacedText group).toList.drop 1).dropLast)

/-! ## The pass -/

/-- Where the pass stands.  Tokens that are held back, the tokens of a group
and the factors behind it are kept with the last one first. -/
inductive State where
  /-- In no group. -/
  | outside (before : List Token)
  /-- In a group that began with a literal and has not ended. -/
  | inside (before : List Token) (opening : String) (group : List Token)
  /-- Behind a group and the factors that follow it. -/
  | behind (before group : List Token) (factors : List Rat)
  /-- Behind a `*` that follows a group, where a factor has to follow. -/
  | multiplying (before group : List Token) (factors : List Rat)

/-- The terms that a group encloses. -/
def enclosedTerms (group : List Token) : Except GroupError (List Term) :=
  let text := enclosedText group
  if text.isEmpty then
    .error .empty
  else
    match Term.sequence? text.toList with
    | some terms => .ok terms
    | none => .error (.notTerms text)

/-- The tokens that replace a group with the given terms. -/
def replacement
    (sign : Option Sign)
    (factors : List Rat)
    (group : List Token)
    (terms : List Term) : List Token :=
  if factors.isEmpty && sign != some .minus then
    (sign.map Token.sign).toList ++ group
  else
    termTokens sign.isSome (terms.map (multiply sign (product factors)))

/-- The tokens up to the end of a group, with the group replaced. -/
def finish
    (before group : List Token)
    (factors : List Rat) : Except GroupError (List Token) := do
  let lead ← Lead.ofTokens before
  let enclosed ← enclosedTerms group.reverse
  return lead.before.reverse ++
    replacement lead.sign (lead.factors ++ factors) group.reverse enclosed

/-- The state behind a literal of a group, the last token of `group`. -/
def afterLiteral
    (before : List Token)
    (opening : String)
    (group : List Token)
    (literal : String)
    (inner : List Char) : Except GroupError State := do
  if ← closes literal inner then
    return .behind before group []
  else
    return .inside before opening group

/-- The state behind a token that stands in no group or begins one. -/
def afterOutside (before : List Token) (token : Token) : Except GroupError State :=
  match token with
  | .literal text =>
      match text.toList with
      | '(' :: inner => afterLiteral before text [token] text inner
      | chars =>
          if chars.contains '(' then
            .error (.notTerms text)
          else if chars.contains ')' then
            .error (.unbalanced text)
          else
            .ok (.outside (token :: before))
  | _ => .ok (.outside (token :: before))

/-- The pass as a machine.  It writes the tokens that are settled by the token
that it reads. -/
def opener : Machine State Token Token GroupError
  | .outside before, token => do
      let next ← afterOutside before token
      return ([], next)
  | .inside _ opening _, .equals => .error (.unbalanced opening)
  | .inside before opening group, .literal text => do
      let next ← afterLiteral before opening (.literal text :: group) text text.toList
      return ([], next)
  | .inside before opening group, token =>
      .ok ([], .inside before opening (token :: group))
  | .behind before group factors, .times =>
      .ok ([], .multiplying before group factors)
  | .behind before group factors, token => do
      let settled ← finish before group factors
      let next ← afterOutside [] token
      return (settled, next)
  | .multiplying before group factors, token => do
      let factor ← factorOf token
      return ([], .behind before group (factor :: factors))

/-- What is left to settle at the end of the tokens. -/
def close : State → Except GroupError (List Token)
  | .outside before => .ok before.reverse
  | .inside _ opening _ => .error (.unbalanced opening)
  | .behind before group factors => finish before group factors
  | .multiplying _ _ _ => .error (.notNumber "*")

/-- Opens the groups of a list of tokens. -/
def openAll (tokens : List Token) : Except GroupError (List Token) := do
  let (settled, last) ← opener.run (.outside []) tokens
  let remaining ← close last
  return settled ++ remaining

/-- Opens the groups of a text.  A text without parentheses stays as it is. -/
def openText (text : String) : Except GroupError String :=
  let tokens := Token.scan text
  if tokens.any Token.hasParenthesis then
    (openAll tokens).map Token.spacedText
  else
    .ok text

end Group
end CanonicalEquation
