import RuleEngine.Proofs.Number.Rounding

/-! The total order of binary64 words. It extends the order of the numbers: the zeros are told apart
by their signs, and not-a-numbers stand at the ends by their signs, and among each other by their
words.
-/

namespace RuleEngine

namespace Number

/-- The total order of the floating-point standard. Of two not-a-numbers with the same sign the one
of smaller magnitude stands nearer to the numbers, so a signalling one stands nearer than a quiet
one, and then the one with the smaller payload.
-/
inductive TotallyBelow : Number → Number → Prop where
  | numeric {m n : Number} (below : m.numericLt n) : TotallyBelow m n
  | zeros {m n : Number} (equal : m.numericEq n) (negative : m.isNegative)
    (positive : n.isNegative = false) : TotallyBelow m n
  | fromLeftEnd {m n : Number} (nan : m.isNaN) (negative : m.isNegative) (number : n.isNaN = false)
    : TotallyBelow m n
  | toRightEnd {m n : Number} (number : m.isNaN = false) (nan : n.isNaN)
    (positive : n.isNegative = false) : TotallyBelow m n
  | endToEnd {m n : Number} (nan : m.isNaN) (nan' : n.isNaN) (negative : m.isNegative)
    (positive : n.isNegative = false) : TotallyBelow m n
  | atLeftEnd {m n : Number} (nan : m.isNaN) (nan' : n.isNaN) (negative : m.isNegative)
    (negative' : n.isNegative) (nearer : n.magnitude < m.magnitude) : TotallyBelow m n
  | atRightEnd {m n : Number} (nan : m.isNaN) (nan' : n.isNaN) (positive : m.isNegative = false)
    (positive' : n.isNegative = false) (nearer : m.magnitude < n.magnitude) : TotallyBelow m n

variable {m n : Number}

theorem totalRank_of_negative (negative : n.isNegative) : n.totalRank = -1 - (n.magnitude : Int) :=
  if_pos negative

theorem totalRank_of_positive (positive : n.isNegative = false) : n.totalRank = n.magnitude :=
  if_neg (Bool.eq_false_iff.mp positive)

/-- The rank puts words into the total order. The cases of the converse are those of the order: what
is not a number, and then the signs.
-/
theorem totallyBelow_iff : TotallyBelow m n ↔ m.totalRank < n.totalRank := by
  constructor
  · intro below
    cases below <;> grind [numericLt, numericEq, ordinal, totalRank, isNaN]
  · intro below
    cases nan : m.isNaN with
    | true =>
      cases nan' : n.isNaN with
      | true =>
        cases sign : m.isNegative with
        | true =>
          cases sign' : n.isNegative with
          | true =>
            rw [totalRank_of_negative sign, totalRank_of_negative sign'] at below
            exact .atLeftEnd nan nan' sign sign' (by omega)
          | false => exact .endToEnd nan nan' sign sign'
        | false =>
          have sign' : n.isNegative = false := by grind [totalRank]
          rw [totalRank_of_positive sign, totalRank_of_positive sign'] at below
          exact .atRightEnd nan nan' sign sign' (by omega)
      | false =>
        have sign : m.isNegative := by grind [totalRank, isNaN]
        exact .fromLeftEnd nan sign nan'
    | false =>
      cases nan' : n.isNaN with
      | true =>
        have sign' : n.isNegative = false := by grind [totalRank, isNaN]
        exact .toRightEnd nan nan' sign'
      | false =>
        have least : m.ordinal ≤ n.ordinal := by grind [totalRank, ordinal]
        rcases Int.lt_or_eq_of_le least with less | equal
        · exact .numeric (by simp [numericLt, nan, nan', less])
        · have signs : m.isNegative ∧ n.isNegative = false := by grind [totalRank, ordinal]
          exact .zeros (by simp [numericEq, nan, nan', equal]) signs.1 signs.2

/-- Words have their ranks to themselves. -/
theorem totalRank_inj : m.totalRank = n.totalRank ↔ m = n := by
  constructor
  · intro same
    have sign : m.isNegative = n.isNegative := by grind [totalRank]
    have magnitude : m.magnitude = n.magnitude := by grind [totalRank]
    exact eq_of_magnitude sign magnitude
  · rintro rfl
    rfl

end Number

end RuleEngine
