import RuleEngine.Number.Shortest
import RuleEngine.Text.Digits

/-! Which texts are decimal literals of finite numbers: a sign, digits with at most one point
among them, and an exponent, of which only one digit is required.
-/

namespace RuleEngine

namespace Number.Literal

open Text (digitsValue spanDigits)

/-- Drops one sign and tells whether it was a minus. -/
def dropSign : List Char → Bool × List Char
  | '+' :: rest => (false, rest)
  | '-' :: rest => (true, rest)
  | s => (false, s)

/-- The exponent at the end of a literal: nothing, or a mark and a whole number. -/
def exponent? : List Char → Option Int
  | [] => some 0
  | mark :: rest =>
    if mark = 'e' ∨ mark = 'E' then
      let (negative, rest) := dropSign rest
      match spanDigits rest with
      | ([], _) => none
      | (digits, []) =>
        some (if negative then -(digitsValue digits : Int) else digitsValue digits)
      | (_, _ :: _) => none
    else none

/-- The decimal that a literal denotes, its sign left out. -/
def read? (s : List Char) : Option Decimal :=
  let (whole, rest) := spanDigits (dropSign s).2
  let (fraction, rest) :=
    match rest with
    | '.' :: rest => spanDigits rest
    | rest => ([], rest)
  if whole.isEmpty && fraction.isEmpty then none
  else
    (exponent? rest).map fun e =>
      ⟨digitsValue (whole ++ fraction), e - fraction.length⟩

/-- Whether a decimal rounds to a finite number: it lies below the point halfway between the
greatest number and the next power of two. Far exponents are settled by their digit count.
-/
def isFinite (d : Decimal) : Bool :=
  let point := (Decimal.length d.digits : Int) + d.exponent
  d.digits == 0 || point < 309 ||
    (point < 311 &&
      Decimal.compareScaled d.digits d.exponent (Nat.pow 2 54 - 1) 970 == .lt)

end Number.Literal

/-- Whether a text is a decimal literal whose number is finite. -/
def Number.isFiniteLiteral (s : List Char) : Bool :=
  (Literal.read? s).any Literal.isFinite

end RuleEngine
