import Mathlib.Tactic.Ring
import RuleEngine.Proofs.Number.Spelling

/-! Which number a decimal rounds to. The shortest decimal of a number lies among the reals that
round to the number, also when it is spelled without an exponent, and no decimal lies among those of
two numbers of the same sign.
-/

namespace RuleEngine

-- --------------------------------------------------------------------------------------
-- Values of decimals
-- --------------------------------------------------------------------------------------

namespace Decimal

/-- Two decimals compare alike with whatever they are compared with. -/
def Alike (d d' : Decimal) : Prop :=
  ∀ b j, compareScaled d.digits d.exponent b j = compareScaled d'.digits d'.exponent b j

theorem Alike.trans {d d' d'' : Decimal} (first : Alike d d') (second : Alike d' d'')
    : Alike d d'' :=
  fun b j => (first b j).trans (second b j)

theorem compare_mul_right (a b : Nat) {c : Nat} (positive : 0 < c)
    : compare (a * c) (b * c) = compare a b := by
  simp only [Nat.compare_eq_ite_lt, Nat.mul_lt_mul_right positive]

/-- A zero at the end may be dropped into the exponent. -/
theorem alike_of_zero (digits : Nat) (exponent : Int)
    : Alike ⟨digits * 10, exponent⟩ ⟨digits, exponent + 1⟩ := by
  intro b j
  simp only [compareScaled, Nat.pow_eq]
  by_cases negative : exponent < 0
  · obtain ⟨k, rfl⟩ : ∃ k : Nat, exponent = -(k + 1 : Nat) :=
      ⟨(-exponent - 1).toNat, by omega⟩
    have next : (-(-((k + 1 : Nat) : Int) + 1)).toNat = k := by omega
    have here : (-((k + 1 : Nat) : Int)).toNat = 0 := by omega
    have above : (-((k + 1 : Nat) : Int) + 1).toNat = 0 := by omega
    have below : (-(-((k + 1 : Nat) : Int))).toNat = k + 1 := by omega
    rw [next, here, above, below, ← compare_mul_right (digits * 10 ^ 0 * 2 ^ (-j).toNat) _
      (by decide : 0 < 10)]
    congr 1 <;> ring
  · have above : (exponent + 1).toNat = exponent.toNat + 1 := by omega
    have below : (-(exponent + 1)).toNat = 0 := by omega
    have here : (-exponent).toNat = 0 := by omega
    rw [above, below, here]
    congr 1
    ring

theorem alike_spelled (d : Decimal) : Alike d.spelled d := by
  unfold spelled
  split
  · intro b j
    have below : (-d.exponent).toNat = 0 := by omega
    simp [compareScaled, below]
  · exact fun _ _ => rfl

/-- By induction on the number of zeros. -/
theorem alike_stripZeros (fuel : Nat) (d : Decimal) : Alike (stripZeros fuel d) d := by
  induction fuel generalizing d with
  | zero => exact fun _ _ => rfl
  | succ fuel ih =>
    unfold stripZeros
    split
    · rename_i zero
      have last : d.digits % 10 = 0 := by simp_all
      have shorter := alike_of_zero (d.digits / 10) d.exponent
      rw [Nat.div_mul_cancel (Nat.dvd_of_mod_eq_zero last)] at shorter
      exact (ih _).trans fun b j => (shorter b j).symm
    · exact fun _ _ => rfl

end Decimal

namespace Number

open Decimal (compareScaled)

theorem readsBack_of_alike {n : Number} {d d' : Decimal} (alike : d.Alike d')
    : n.readsBack d = n.readsBack d' := by
  simp only [readsBack, alike _ _]

/-- The exact value compares by the significand, in quarters of the last place. -/
theorem compareScaled_exactDecimal (n : Number) (b : Nat)
    : compareScaled n.exactDecimal.digits n.exactDecimal.exponent b (n.exponent - 2)
      = compare (4 * n.significand) b := by
  unfold exactDecimal
  generalize n.significand = significand, n.exponent = exponent
  split
  · simp only [compareScaled, Nat.pow_eq]
    by_cases large : 2 ≤ exponent
    · obtain ⟨k, rfl⟩ : ∃ k : Nat, exponent = (k + 2 : Nat) := ⟨(exponent - 2).toNat, by omega⟩
      have scale : (((k + 2 : Nat) : Int) - 2).toNat = k := by omega
      have none : (-(((k + 2 : Nat) : Int) - 2)).toNat = 0 := by omega
      rw [scale, none, ← Decimal.compare_mul_right (4 * significand) b (Nat.two_pow_pos k)]
      congr 1
      · simp only [Int.toNat_natCast, Int.toNat_zero]
        ring
      · simp
    · obtain rfl | rfl : exponent = 0 ∨ exponent = 1 := by omega
      all_goals
        simp only [Int.reduceNeg, Int.reduceSub, Int.reduceToNat, pow_zero, mul_one, pow_one]
        congr 1
        ring
  · obtain ⟨k, rfl⟩ : ∃ k : Nat, exponent = -(k : Int) := ⟨(-exponent).toNat, by omega⟩
    have whole : (-(k : Int) - 2).toNat = 0 := by omega
    have scale : (-(-(k : Int) - 2)).toNat = k + 2 := by omega
    simp only [compareScaled, Nat.pow_eq, whole, scale, Int.neg_neg, Int.toNat_natCast,
      Int.toNat_neg_natCast]
    rw [← Decimal.compare_mul_right (4 * significand) b (Nat.pow_pos (by decide) : 0 < 10 ^ k)]
    have tens : 5 ^ k * 2 ^ k = 10 ^ k := (Nat.mul_pow 5 2 k).symm
    congr 1
    · rw [← tens]
      ring
    · ring

/-- A number lies among the reals that round to it. -/
theorem readsBack_exactDecimal {n : Number} (nonzero : n.significand ≠ 0)
    : n.readsBack n.exactDecimal = true := by
  have aboveLow {low : Nat} (below : low < 4 * n.significand)
      : compare (4 * n.significand) low = .gt :=
    Nat.compare_eq_gt.mpr below
  have belowHigh : compare (4 * n.significand) (4 * n.significand + 2) = .lt :=
    Nat.compare_eq_lt.mpr (by omega)
  simp only [readsBack, compareScaled_exactDecimal, belowHigh]
  split
  · rw [aboveLow (by omega)]
    rfl
  · rw [aboveLow (by omega)]
    rfl

theorem readsBack_of_ofLength? {n : Number} {length : Nat} {d : Decimal}
    (found : n.ofLength? length = some d)
    : n.readsBack d = true := by
  unfold ofLength? at found
  dsimp only at found
  split at found
  · rename_i below above
    obtain rfl := Option.some.inj found
    split
    · exact below
    · exact above
  · rename_i below _
    obtain rfl := Option.some.inj found
    exact below
  · rename_i _ above
    obtain rfl := Option.some.inj found
    exact above
  · cases found

/-- What the spelling of a number says: zero for zero, and else a decimal that rounds to it. -/
def RoundsFrom (n : Number) (d : Decimal) : Prop :=
  if n.significand = 0 then d.digits = 0 else n.readsBack d = true

/-- The shortest decimal rounds to the number, also as it is spelled. -/
theorem roundsFrom_spelled (n : Number) : n.RoundsFrom n.shortest.spelled := by
  unfold RoundsFrom
  split
  · rename_i zero
    simp [shortest, zero, Decimal.spelled]
  · rename_i nonzero
    rw [readsBack_of_alike n.shortest.alike_spelled, shortest, if_neg nonzero]
    dsimp only
    rw [readsBack_of_alike (Decimal.alike_stripZeros _ _)]
    cases found : (List.range 17).findSome? fun i => n.ofLength? (i + 1) with
    | none => exact readsBack_exactDecimal nonzero
    | some d =>
      obtain ⟨i, -, here⟩ := List.exists_of_findSome?_eq_some found
      exact readsBack_of_ofLength? here

-- --------------------------------------------------------------------------------------
-- No decimal rounds to two numbers
-- --------------------------------------------------------------------------------------

/-- The significand and the exponent of a magnitude, the latter counted from the least one. -/
def significandAt (m : Nat) : Nat := if m < 2 ^ 52 then m % 2 ^ 52 else 2 ^ 52 + m % 2 ^ 52

def scaleAt (m : Nat) : Nat := if m < 2 ^ 52 then 0 else m / 2 ^ 52 - 1

/-- Halfway from a magnitude to the next one, in quarters of the least number. -/
def halfwayAfter (m : Nat) : Nat := (4 * significandAt m + 2) * 2 ^ scaleAt m

/-- Halfway back to the magnitude before, whether it is half as far away or not. -/
theorem halfwayAfter_eq (m : Nat)
    : halfwayAfter m
      = (if (m + 1) % 2 ^ 52 == 0 && decide (2 ^ 53 ≤ m + 1) then 4 * significandAt (m + 1) - 1
          else 4 * significandAt (m + 1) - 2) * 2 ^ scaleAt (m + 1) := by
  unfold halfwayAfter
  by_cases boundary : (m + 1) % 2 ^ 52 = 0 ∧ 2 ^ 53 ≤ m + 1
  · have before : significandAt m = 2 ^ 53 - 1 := by
      unfold significandAt
      split <;> omega
    have here : significandAt (m + 1) = 2 ^ 52 := by
      unfold significandAt
      split <;> omega
    have next : scaleAt (m + 1) = scaleAt m + 1 := by
      unfold scaleAt
      split <;> split <;> omega
    have narrow : ((m + 1) % 2 ^ 52 == 0 && decide (2 ^ 53 ≤ m + 1)) = true := by
      simpa using boundary
    rw [if_pos narrow, before, here, next, pow_succ]
    ring
  · have same : scaleAt (m + 1) = scaleAt m := by
      unfold scaleAt
      split <;> split <;> omega
    have next : significandAt (m + 1) = significandAt m + 1 := by
      unfold significandAt
      split <;> split <;> omega
    have wide : ¬((m + 1) % 2 ^ 52 == 0 && decide (2 ^ 53 ≤ m + 1)) = true := by
      simpa using boundary
    rw [if_neg wide, same, next]
    congr 1

theorem strictMono_halfwayAfter : StrictMono halfwayAfter := by
  refine strictMono_nat_of_lt_succ fun m => ?_
  rw [halfwayAfter_eq, halfwayAfter]
  refine Nat.mul_lt_mul_of_pos_right ?_ (Nat.two_pow_pos _)
  split <;> omega

/-- A quarter of the least number is two to the power of minus this. -/
def quarterScale : Nat := 1076

theorem exponent_sub_two (n : Number)
    : n.exponent - 2 = (scaleAt n.magnitude : Int) - quarterScale := by
  simp only [exponent, scaleAt, quarterScale, Nat.pow_eq]
  split
  · rfl
  · have atLeast : 1 ≤ n.magnitude / 2 ^ 52 := by omega
    omega

/-- A scaled comparison in multiples of a small enough unit. -/
theorem compareScaled_units (a : Nat) (i : Int) (b scale unit : Nat)
    : compareScaled a i b ((scale : Int) - unit)
      = compare (a * 10 ^ i.toNat * 2 ^ unit) (b * 2 ^ scale * 10 ^ (-i).toNat) := by
  simp only [compareScaled, Nat.pow_eq]
  by_cases large : unit ≤ scale
  · obtain ⟨k, rfl⟩ := Nat.exists_eq_add_of_le large
    have whole : ((unit + k : Nat) - unit : Int).toNat = k := by omega
    have none : (-((unit + k : Nat) - unit : Int)).toNat = 0 := by omega
    rw [whole, none, ← Decimal.compare_mul_right _ _ (Nat.two_pow_pos unit)]
    congr 1 <;> ring
  · obtain ⟨k, rfl⟩ := Nat.exists_eq_add_of_le (Nat.le_of_not_le large)
    have none : ((scale : Int) - (scale + k : Nat)).toNat = 0 := by omega
    have rest : (-((scale : Int) - (scale + k : Nat))).toNat = k := by omega
    rw [none, rest, ← Decimal.compare_mul_right _ _ (Nat.two_pow_pos scale)]
    congr 1 <;> ring

/-- A decimal that reads back lies between the points halfway to the neighbours, and on one of them
only if the magnitude is even.
-/
theorem halfway_of_readsBack {n : Number} {d : Decimal} {m : Nat} (magnitude : n.magnitude = m + 1)
    (reads : n.readsBack d = true) {value unit : Nat}
    (scaled : value = d.digits * 10 ^ d.exponent.toNat * 2 ^ quarterScale)
    (units : unit = 10 ^ (-d.exponent).toNat)
    : halfwayAfter m * unit ≤ value ∧ value ≤ halfwayAfter (m + 1) * unit
      ∧ (value = halfwayAfter m * unit ∨ value = halfwayAfter (m + 1) * unit →
        (m + 1) % 2 = 0) := by
  have significand : n.significand = significandAt (m + 1) := by
    rw [← magnitude]
    rfl
  have parity : significandAt (m + 1) % 2 = (m + 1) % 2 := by
    unfold significandAt
    split <;> omega
  simp only [readsBack, isNarrowBelow, exponent_sub_two, magnitude, significand,
    compareScaled_units, ← scaled, ← units, Nat.pow_eq, ← halfwayAfter_eq] at reads
  have upper : (4 * significandAt (m + 1) + 2) * 2 ^ scaleAt (m + 1) = halfwayAfter (m + 1) := rfl
  rw [upper, parity] at reads
  simp only [Bool.and_eq_true, Bool.or_eq_true, beq_iff_eq, Nat.compare_eq_gt, Nat.compare_eq_lt,
    Nat.compare_eq_eq] at reads
  have ordered : halfwayAfter m * unit < halfwayAfter (m + 1) * unit :=
    Nat.mul_lt_mul_of_pos_right (strictMono_halfwayAfter (Nat.lt_succ_self m))
      (units ▸ Nat.pow_pos (by decide))
  omega

theorem significand_eq_zero_iff {n : Number} : n.significand = 0 ↔ n.magnitude = 0 := by
  simp only [significand, Nat.pow_eq]
  split <;> omega

/-- Of two magnitudes that a decimal reads back to neither is less. -/
theorem not_lt_of_readsBack {n n' : Number} {d : Decimal} (nonzero : n.magnitude ≠ 0)
    (reads : n.readsBack d = true) (reads' : n'.readsBack d = true)
    : ¬n.magnitude < n'.magnitude := by
  intro less
  obtain ⟨m, magnitude⟩ := Nat.exists_eq_succ_of_ne_zero nonzero
  obtain ⟨m', magnitude'⟩ := Nat.exists_eq_succ_of_ne_zero (Nat.ne_zero_of_lt less)
  obtain ⟨-, high, even⟩ := halfway_of_readsBack magnitude reads rfl rfl
  obtain ⟨low, -, even'⟩ := halfway_of_readsBack magnitude' reads' rfl rfl
  have unit : 0 < 10 ^ (-d.exponent).toNat := Nat.pow_pos (by decide)
  have between : halfwayAfter m' ≤ halfwayAfter (m + 1) :=
    Nat.le_of_mul_le_mul_right (Nat.le_trans low high) unit
  have next : m' ≤ m + 1 := strictMono_halfwayAfter.le_iff_le.mp between
  obtain rfl : m' = m + 1 := by omega
  have same := Nat.le_antisymm high low
  have bothEven := even (.inr same)
  have bothEven' := even' (.inl same)
  omega

/-- Numbers of the same sign are the same if their magnitudes are. -/
theorem eq_of_magnitude {n n' : Number} (sign : n.isNegative = n'.isNegative)
    (magnitude : n.magnitude = n'.magnitude)
    : n = n' := by
  obtain ⟨bits⟩ := n
  obtain ⟨bits'⟩ := n'
  have bound := bits.toNat_lt
  have bound' := bits'.toNat_lt
  simp only [isNegative, Number.magnitude, Nat.pow_eq, decide_eq_decide] at sign magnitude
  congr 1
  exact UInt64.toNat_inj.mp (by omega)

/-- Zero lies nowhere near a number that is not zero. -/
theorem digits_ne_zero_of_readsBack {n : Number} {d : Decimal} (nonzero : n.significand ≠ 0)
    (reads : n.readsBack d = true)
    : d.digits ≠ 0 := by
  intro zero
  obtain ⟨m, magnitude⟩ := Nat.exists_eq_succ_of_ne_zero (mt significand_eq_zero_iff.mpr nonzero)
  obtain ⟨low, -, -⟩ := halfway_of_readsBack magnitude reads rfl rfl
  have positive : 0 < halfwayAfter m * 10 ^ (-d.exponent).toNat :=
    Nat.mul_pos (Nat.mul_pos (by omega) (Nat.two_pow_pos _)) (Nat.pow_pos (by decide))
  simp only [zero, Nat.zero_mul] at low
  omega

/-- A decimal rounds to at most one number of either sign. -/
theorem eq_of_roundsFrom {n n' : Number} {d : Decimal} (sign : n.isNegative = n'.isNegative)
    (rounds : n.RoundsFrom d) (rounds' : n'.RoundsFrom d)
    : n = n' := by
  refine eq_of_magnitude sign ?_
  unfold RoundsFrom at rounds rounds'
  split at rounds <;> split at rounds'
  · rename_i zero zero'
    rw [significand_eq_zero_iff.mp zero, significand_eq_zero_iff.mp zero']
  · rename_i nonzero
    exact absurd rounds (digits_ne_zero_of_readsBack nonzero rounds')
  · rename_i nonzero _
    exact absurd rounds' (digits_ne_zero_of_readsBack nonzero rounds)
  · rename_i nonzero nonzero'
    have notLess := not_lt_of_readsBack (mt significand_eq_zero_iff.mpr nonzero) rounds rounds'
    have notLess' := not_lt_of_readsBack (mt significand_eq_zero_iff.mpr nonzero') rounds' rounds
    omega

end Number

end RuleEngine
