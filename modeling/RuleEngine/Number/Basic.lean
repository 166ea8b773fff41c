/-!
A number is its binary64 word. Comparisons are read off the word as integers, so that they can be
reasoned about without the arithmetic, and the signs of zero and of not-a-number are never lost.
-/

namespace RuleEngine

/-- A binary64 number, given by its word. -/
structure Number where
  bits : UInt64
deriving DecidableEq

namespace Number

/-- The word without its sign: the exponent above the fraction. -/
def magnitude (n : Number) : Nat := n.bits.toNat % Nat.pow 2 63

/-- Whether the sign bit is set. Zeros and not-a-numbers have a sign too. -/
def isNegative (n : Number) : Bool := Nat.pow 2 63 ≤ n.bits.toNat

/-- The magnitude of an infinity; finite numbers lie below it and not-a-numbers above. -/
def infinityMagnitude : Nat := 0x7FF0000000000000

def isNaN (n : Number) : Bool := infinityMagnitude < n.magnitude

def isInfinite (n : Number) : Bool := n.magnitude == infinityMagnitude

def isFinite (n : Number) : Bool := n.magnitude < infinityMagnitude

def zero : Number := ⟨0⟩

def one : Number := ⟨0x3FF0000000000000⟩

def infinity : Number := ⟨0x7FF0000000000000⟩

def negInfinity : Number := ⟨0xFFF0000000000000⟩

/-- The not-a-number that stands for a missing value in data. -/
def nan : Number := ⟨0x7FF8000000000000⟩

/-- The not-a-number that an operation without a result gives: its sign bit is set. -/
def invalid : Number := ⟨0xFFF8000000000000⟩

-- --------------------------------------------------------------------------------------
-- Comparison
-- --------------------------------------------------------------------------------------

/-- The place on the number line, in steps of one unit in the last place. Both zeros have
place 0; a not-a-number has no place, and its value here means nothing.
-/
def ordinal (n : Number) : Int :=
  if n.isNegative then -(n.magnitude : Int) else n.magnitude

/-- Numeric equality: not-a-number equals nothing, and the zeros are equal. -/
def numericEq (a b : Number) : Bool :=
  !a.isNaN && !b.isNaN && a.ordinal == b.ordinal

/-- Numeric order; false whenever a not-a-number takes part. -/
def numericLt (a b : Number) : Bool :=
  !a.isNaN && !b.isNaN && a.ordinal < b.ordinal

/-- Numeric order or equality; false whenever a not-a-number takes part. -/
def numericLe (a b : Number) : Bool :=
  !a.isNaN && !b.isNaN && a.ordinal ≤ b.ordinal

/-- The numeric comparison, which exists unless a not-a-number takes part. -/
def compare? (a b : Number) : Option Ordering :=
  if a.isNaN || b.isNaN then none else some (compare a.ordinal b.ordinal)

/-- Same value: not-a-number is the same as itself, and the zeros differ. -/
def same (a b : Number) : Bool :=
  (a.isNaN && b.isNaN) || a.bits == b.bits

/-- The place in the total order of all words: negative not-a-numbers first, then the number
line with -0 before +0, and positive not-a-numbers last.
-/
def totalRank (n : Number) : Int :=
  if n.isNegative then -1 - (n.magnitude : Int) else n.magnitude

-- --------------------------------------------------------------------------------------
-- Exact value of a finite number
-- --------------------------------------------------------------------------------------

/-- The significand: a finite number is its significand times a power of two. -/
def significand (n : Number) : Nat :=
  let fraction := n.magnitude % Nat.pow 2 52
  if n.magnitude < Nat.pow 2 52 then fraction else Nat.pow 2 52 + fraction

/-- The exponent of two that belongs to the significand. -/
def exponent (n : Number) : Int :=
  if n.magnitude < Nat.pow 2 52 then -1074
  else ((n.magnitude / Nat.pow 2 52 : Nat) : Int) - 1075

/-- The absolute value with its fractional part cut off. -/
def truncated (n : Number) : Nat :=
  if 0 ≤ n.exponent then n.significand * Nat.pow 2 n.exponent.toNat
  else n.significand / Nat.pow 2 (-n.exponent).toNat

def isIntegral (n : Number) : Bool :=
  n.isFinite && (0 ≤ n.exponent || n.significand % Nat.pow 2 (-n.exponent).toNat == 0)

/-- The whole number toward zero, or 0 for a number that is not finite. -/
def toInt (n : Number) : Int :=
  if !n.isFinite then 0 else if n.isNegative then -(n.truncated : Int) else n.truncated

/-- The position that a number names: a whole number that is not below zero. -/
def index? (n : Number) : Option Nat :=
  if n.isIntegral && 0 ≤ n.ordinal then some n.truncated else none

-- --------------------------------------------------------------------------------------
-- Arithmetic
-- --------------------------------------------------------------------------------------

def toFloat (n : Number) : Float := Float.ofBits n.bits

/-- The word of a result; a result that is not a number becomes `invalid`. -/
def ofFloat (f : Float) : Number :=
  if f.isNaN then invalid else ⟨f.toBits⟩

/-- A not-a-number that passes through an operation loses its signalling state. -/
def quiet (n : Number) : Number := ⟨n.bits ||| 0x0008000000000000⟩

/-- An operation on two numbers: the first not-a-number among the operands comes through,
otherwise the result is rounded once.
-/
def combine (op : Float → Float → Float) (a b : Number) : Number :=
  if a.isNaN then a.quiet
  else if b.isNaN then b.quiet
  else ofFloat (op a.toFloat b.toFloat)

instance : Add Number where
  add := combine (· + ·)

instance : Sub Number where
  sub := combine (· - ·)

instance : Mul Number where
  mul := combine (· * ·)

instance : Div Number where
  div := combine (· / ·)

/-- Negation flips the sign bit, whatever the number. -/
instance : Neg Number where
  neg n := ⟨n.bits ^^^ 0x8000000000000000⟩

/-- The number nearest to a natural number, ties to even. -/
def ofNat (n : Nat) : Number := ⟨(Float.ofScientific n false 0).toBits⟩

/-- The number nearest to an integer, ties to even. -/
def ofInt (n : Int) : Number :=
  if n < 0 then -ofNat n.natAbs else ofNat n.natAbs

def ofBool (b : Bool) : Number := if b then one else zero

end Number

end RuleEngine
