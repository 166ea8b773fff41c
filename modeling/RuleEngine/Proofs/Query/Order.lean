import Mathlib.Order.Defs.LinearOrder
import RuleEngine.Query

/-! The order of rows. Values are ordered by a few keys that every value has, one after the other,
and so are rows, by whether they have a value to be sorted by and by that value. An order by keys is
total and transitive, whatever is compared.
-/

namespace RuleEngine

open Std

-- --------------------------------------------------------------------------------------
-- Values
-- --------------------------------------------------------------------------------------

namespace Value

/-- What the values of one type are ordered by: a whole number, then a natural one, then a text.
Types that do without one of them, or without any, leave it the same for all of their values.
-/
def orderKey : Value → Int × Nat × String
  | bool b => (0, b.toNat, "")
  | number n => (n.totalRank, 0, "")
  | string s => (0, 0, s)
  | date i => (i.seconds, i.nanos, "")
  | fact f => (0, f.id.number, "")
  | _ => (0, 0, "")

/-- Values are ordered by their types and then by the keys of these. -/
theorem totalCompare_eq
    : totalCompare
      = compareLex (compareOn typeRank)
          (compareLex (compareOn (·.orderKey.1))
            (compareLex (compareOn (·.orderKey.2.1)) (compareOn (·.orderKey.2.2)))) := by
  funext v w
  cases v <;> cases w
  case bool.bool a b => cases a <;> cases b <;> rfl
  case number.number | string.string | date.date | fact.fact =>
    simp [totalCompare, compareLex, compareOn, typeRank, orderKey, Instant.compare]
  all_goals rfl

instance : TransCmp totalCompare := by
  rw [totalCompare_eq]
  infer_instance

end Value

-- --------------------------------------------------------------------------------------
-- Rows
-- --------------------------------------------------------------------------------------

namespace Query

/-- The order of the values in a direction. -/
def compareValues : Direction → Value → Value → Ordering
  | .ascending => Value.totalCompare
  | .descending => flip Value.totalCompare

instance (direction : Direction) : TransCmp (compareValues direction) := by
  cases direction
  · exact inferInstanceAs (TransCmp Value.totalCompare)
  · exact inferInstanceAs (TransCmp (flip Value.totalCompare))

/-- Rows are ordered by whether they are without a value, and then by their values. -/
theorem compareRows_eq (key : String) (direction : Direction)
    : compareRows key direction
      = compareLex (compareOn fun row => (sortValue? row key).isNone)
          (Ordering.byKey (fun row => (sortValue? row key).getD .undefined)
            (compareValues direction)) := by
  funext a b
  simp only [compareRows, compareLex, compareOn, Ordering.byKey]
  cases sortValue? a key with
  | none =>
    cases sortValue? b key with
    | none => cases direction <;> rfl
    | some w => rfl
  | some v =>
    cases sortValue? b key with
    | none => rfl
    | some w =>
      cases direction with
      | ascending => rfl
      | descending => exact OrientedCmp.eq_swap.symm

instance (key : String) (direction : Direction) : TransCmp (compareRows key direction) := by
  rw [compareRows_eq]
  infer_instance

theorem compareRows_swap (key : String) (direction : Direction) (a b : Record)
    : compareRows key direction b a = (compareRows key direction a b).swap :=
  OrientedCmp.eq_swap

/-- The value that a row is sorted by under a key: what stands there or, if nothing does, the
variable of that name; but not the undefined value.
-/
def SortedBy (row : Record) (key : String) (v : Value) : Prop :=
  (row.get? key = some v ∨ row.get? key = none ∧ row.get? ("?" ++ key) = some v)
    ∧ v.isUndefined = false

theorem sortValue?_eq_some_iff {row : Record} {key : String} {v : Value}
    : sortValue? row key = some v ↔ SortedBy row key v := by
  unfold sortValue? SortedBy
  cases row.get? key <;> simp [Option.filter_eq_some_iff]

theorem sortValue?_eq_none_iff {row : Record} {key : String}
    : sortValue? row key = none ↔ ∀ v, ¬SortedBy row key v := by
  simp [Option.eq_none_iff_forall_ne_some, sortValue?_eq_some_iff]

/-- A row belongs before another one: both have values, which are in the order of the direction, or
only the other one is without a value.
-/
inductive Precedes (key : String) : Direction → Record → Record → Prop where
  | ascending {a b : Record} {v w : Value} (left : SortedBy a key v) (right : SortedBy b key w)
    (below : v.totalCompare w = .lt) : Precedes key .ascending a b
  | descending {a b : Record} {v w : Value} (left : SortedBy a key v) (right : SortedBy b key w)
    (below : w.totalCompare v = .lt) : Precedes key .descending a b
  | last {direction : Direction} {a b : Record} {v : Value} (left : SortedBy a key v)
    (right : ∀ w, ¬SortedBy b key w) : Precedes key direction a b

theorem precedes_iff {key : String} {direction : Direction} {a b : Record}
    : Precedes key direction a b ↔ compareRows key direction a b = .lt := by
  constructor
  · intro precedes
    cases precedes with
    | ascending left right below =>
      simp [compareRows, sortValue?_eq_some_iff.mpr left, sortValue?_eq_some_iff.mpr right, below]
    | descending left right below =>
      simp [compareRows, sortValue?_eq_some_iff.mpr left, sortValue?_eq_some_iff.mpr right,
        OrientedCmp.gt_of_lt below]
    | last left right =>
      simp [compareRows, sortValue?_eq_some_iff.mpr left, sortValue?_eq_none_iff.mpr right]
  · intro below
    unfold compareRows at below
    split at below
    · cases below
    · cases below
    · rename_i left right
      exact .last (sortValue?_eq_some_iff.mp left) (sortValue?_eq_none_iff.mp right)
    · rename_i left right
      have left := sortValue?_eq_some_iff.mp left
      have right := sortValue?_eq_some_iff.mp right
      cases direction with
      | ascending => exact .ascending left right below
      | descending => exact .descending left right (OrientedCmp.lt_of_gt (by simpa using below))

end Query

end RuleEngine
