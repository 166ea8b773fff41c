import RuleEngine.Number.Shortest

/-! How numbers are spelled: always positionally, never with an exponent. Data and data formats
differ in the words for what is not finite and in the digits of large whole numbers.
-/

namespace RuleEngine

namespace Decimal

/-- Text of digits with the point set `places` digits from the right. -/
def pointed (digits places : Nat) : String :=
  if places = 0 then toString digits
  else
    let all := Nat.toDigits 10 digits
    let padded := List.replicate (places + 1 - all.length) '0' ++ all
    let point := padded.length - places
    String.ofList (padded.take point ++ '.' :: padded.drop point)

/-- Positional notation. -/
def text (d : Decimal) : String :=
  if 0 ≤ d.exponent then toString (d.digits * Nat.pow 10 d.exponent.toNat)
  else pointed d.digits (-d.exponent).toNat

end Decimal

namespace Number

def signText (n : Number) : String := if n.isNegative then "-" else ""

/-- The spelling in data formats: the fewest digits that read back. -/
def plain (n : Number) : String :=
  if n.isNaN then "NaN"
  else if n.isInfinite then n.signText ++ "inf"
  else n.signText ++ n.shortest.text

/-- The spelling of a value: whole numbers below `10 ^ 21` in full, others with the fewest digits
that read back. Zero keeps its sign.
-/
def text (n : Number) : String :=
  if n.isNaN then "NaN"
  else if n.isInfinite then n.signText ++ "Infinity"
  else if n.isIntegral && n.truncated < Nat.pow 10 21 then n.signText ++ toString n.truncated
  else n.plain

/-- The quotient rounded to the nearest whole number, ties to even. -/
def roundQuotient (num den : Nat) : Nat :=
  let low := num / den
  match compare (2 * (num % den)) den with
  | .lt => low
  | .gt => low + 1
  | .eq => if low % 2 = 0 then low else low + 1

/-- A fixed number of places after the point: the exact value rounded, ties to even. Meant for
finite numbers.
-/
def fixed (n : Number) (places : Nat) : String :=
  let (num, den) := n.inUnits (-(places : Int))
  n.signText ++ Decimal.pointed (roundQuotient num den) places

end Number

end RuleEngine
