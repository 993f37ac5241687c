/-!
# Signs

The sign in front of a term, with its two operations: turning it round and
multiplying it with another.  Consecutive signs in an equation multiply, so
`- -` in front of a term is the same as `+`.
-/

namespace CanonicalEquation

/-- The sign in front of a term. -/
inductive Sign where
  /-- The sign `+`, also of a term written without one. -/
  | plus
  /-- The sign `-`. -/
  | minus
deriving DecidableEq

namespace Sign

/-- The opposite sign. -/
def opposite : Sign → Sign
  | plus => minus
  | minus => plus

/-- The sign of a product whose factors have the two signs. -/
def product : Sign → Sign → Sign
  | plus, sign => sign
  | minus, sign => sign.opposite

instance : Neg Sign := ⟨opposite⟩

instance : Mul Sign := ⟨product⟩

@[simp] theorem neg_plus : -plus = minus := rfl

@[simp] theorem neg_minus : -minus = plus := rfl

@[simp] theorem plus_mul (sign : Sign) : plus * sign = sign := rfl

@[simp] theorem minus_mul (sign : Sign) : minus * sign = -sign := rfl

/-- The number with the given sign and the given magnitude. -/
def apply : Sign → Rat → Rat
  | plus, magnitude => magnitude
  | minus, magnitude => -magnitude

@[simp] theorem apply_plus (magnitude : Rat) : plus.apply magnitude = magnitude := rfl

@[simp] theorem apply_minus (magnitude : Rat) : minus.apply magnitude = -magnitude := rfl

/-- The sign of a number.  Zero has the sign `+`. -/
def ofRat (value : Rat) : Sign :=
  if value < 0 then minus else plus

/-- The character that writes a sign. -/
def char : Sign → Char
  | plus => '+'
  | minus => '-'

/-- The sign that a character writes, if it writes one. -/
def ofChar? : Char → Option Sign
  | '+' => some plus
  | '-' => some minus
  | _ => none

@[simp] theorem ofChar?_char (sign : Sign) : ofChar? sign.char = some sign := by
  cases sign <;> rfl

/-- The text of a sign. -/
def text (sign : Sign) : String :=
  String.ofList [sign.char]

end Sign
end CanonicalEquation
