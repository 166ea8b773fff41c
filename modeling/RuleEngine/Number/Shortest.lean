import RuleEngine.Number.Basic

/-! The shortest decimal that reads back to a number, by exact arithmetic: the number stands for
the reals that round to it, and the coarsest decimal grid with a point among them is taken.
-/

namespace RuleEngine

/-- Digits scaled by a power of ten. -/
structure Decimal where
  digits : Nat
  exponent : Int
deriving DecidableEq

namespace Decimal

/-- The order of `a * 10 ^ i` and `b * 2 ^ j`, by cross multiplication. -/
def compareScaled (a : Nat) (i : Int) (b : Nat) (j : Int) : Ordering :=
  compare (a * Nat.pow 10 i.toNat * Nat.pow 2 (-j).toNat)
    (b * Nat.pow 2 j.toNat * Nat.pow 10 (-i).toNat)

/-- Drops trailing zeros into the exponent, at most `fuel` of them. -/
def stripZeros : Nat → Decimal → Decimal
  | 0, d => d
  | fuel + 1, d =>
    if d.digits % 10 = 0 && d.digits != 0 then stripZeros fuel ⟨d.digits / 10, d.exponent + 1⟩
    else d

def length (n : Nat) : Nat := (Nat.toDigits 10 n).length

end Decimal

namespace Number

/-- Whether the neighbour below is half as far away as the neighbour above: at a power of two,
where the spacing changes, except at the smallest exponent.
-/
def isNarrowBelow (n : Number) : Bool :=
  n.magnitude % Nat.pow 2 52 == 0 && Nat.pow 2 53 ≤ n.magnitude

/-- Whether a decimal lies among the reals that round to the absolute value of `n`. These reach
halfway to either neighbour, the ends included exactly if the significand is even.
-/
def readsBack (n : Number) (d : Decimal) : Bool :=
  let low := if n.isNarrowBelow then 4 * n.significand - 1 else 4 * n.significand - 2
  let high := 4 * n.significand + 2
  let closed := n.significand % 2 == 0
  let atLow := Decimal.compareScaled d.digits d.exponent low (n.exponent - 2)
  let atHigh := Decimal.compareScaled d.digits d.exponent high (n.exponent - 2)
  (atLow == .gt || (closed && atLow == .eq)) && (atHigh == .lt || (closed && atHigh == .eq))

/-- The number of digits before the point; for a number below one, zero less the number of zeros
after the point. It is the least `k` with the absolute value below `10 ^ k`.
-/
def decimalPoint (n : Number) : Int :=
  if n.truncated ≠ 0 then Decimal.length n.truncated
  else
    let room := (Nat.pow 2 (-n.exponent).toNat - 1) / n.significand
    1 - (Decimal.length room : Int)

/-- The absolute value in units of `10 ^ grid`, as a quotient of two natural numbers. -/
def inUnits (n : Number) (grid : Int) : Nat × Nat :=
  (n.significand * Nat.pow 2 n.exponent.toNat * Nat.pow 10 (-grid).toNat,
    Nat.pow 2 (-n.exponent).toNat * Nat.pow 10 grid.toNat)

/-- The decimal of the given number of digits that reads back, if there is one: of the two grid
points next to the number the nearer, and on a tie the upper.
-/
def ofLength? (n : Number) (length : Nat) : Option Decimal :=
  let grid := n.decimalPoint - length
  let (num, den) := n.inUnits grid
  let below : Decimal := ⟨num / den, grid⟩
  let above : Decimal := ⟨num / den + 1, grid⟩
  match n.readsBack below, n.readsBack above with
  | true, true => some (if 2 * (num % den) < den then below else above)
  | true, false => some below
  | false, true => some above
  | false, false => none

/-- The exact absolute value of a finite number. -/
def exactDecimal (n : Number) : Decimal :=
  if 0 ≤ n.exponent then ⟨n.significand * Nat.pow 2 n.exponent.toNat, 0⟩
  else ⟨n.significand * Nat.pow 5 (-n.exponent).toNat, n.exponent⟩

/-- The decimal with the fewest digits that reads back to the absolute value of a finite number;
of two such decimals the nearer, and on a tie the upper.
-/
def shortest (n : Number) : Decimal :=
  if n.significand = 0 then ⟨0, 0⟩
  else
    let found := ((List.range 17).findSome? fun i => n.ofLength? (i + 1)).getD n.exactDecimal
    Decimal.stripZeros (Decimal.length found.digits) found

end Number

end RuleEngine
