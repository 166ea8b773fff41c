import RuleEngine.Proofs.Number.TotalOrder
import RuleEngine.Proofs.Query.Order
import RuleEngine.Proofs.Query.StableSort

/-! The sort of rows. The order of rows is a total preorder under every key and in both directions,
whatever values stand under the key. So a sort that can be relied on for total preorders can be
relied on for rows, and gives them in the one order that there is.
-/

namespace RuleEngine

namespace Query

/-- A sort of rows that may give up. It is to answer whenever it is given a total preorder, and then
with the rows in order, ties as they stood. Of other comparisons nothing is known.
-/
def Dependable (sort : (Record → Record → Ordering) → List Record → Option (List Record)) : Prop :=
  ∀ compare, IsTotalPreorder compare → ∀ rows,
    ∃ sorted, sort compare rows = some sorted ∧ StablySorted compare rows sorted

variable {key : String} {direction : Direction}

theorem stablySorted_sortRows (key : String) (direction : Direction) (rows : List Record)
    : StablySorted (compareRows key direction) rows (sortRows key direction rows) :=
  stablySorted_mergeSort rows

theorem stablySorted_iff {rows sorted : List Record}
    : StablySorted (compareRows key direction) rows sorted
      ↔ sorted = sortRows key direction rows := by
  constructor
  · intro stably
    exact stably.unique (stablySorted_sortRows key direction rows)
  · rintro rfl
    exact stablySorted_sortRows key direction rows

/-- Rows with numbers under the key are in the total order of the numbers. -/
theorem compareRows_numbers {a b : Record} {m n : Number} (left : SortedBy a key (.number m))
    (right : SortedBy b key (.number n))
    : compareRows key direction a b
      = match direction with
        | .ascending => compare m.totalRank n.totalRank
        | .descending => compare n.totalRank m.totalRank := by
  rw [compareRows, sortValue?_eq_some_iff.mpr left, sortValue?_eq_some_iff.mpr right]
  cases direction with
  | ascending => rfl
  | descending => exact Std.OrientedCmp.eq_swap.symm

/-- The order of rows obeys the laws that a sort asks for. Numbers are in it by the total order of
their words. One list only is the stable sort of some rows, and every sort that can be relied on
finds it.
-/
theorem compareRows_lawful (key : String) (direction : Direction)
    : IsTotalPreorder (compareRows key direction)
      ∧ (∀ a b m n, SortedBy a key (.number m) → SortedBy b key (.number n) →
          (compareRows key direction a b = .eq ↔ m = n)
          ∧ (compareRows key direction a b = .lt
            ↔ match direction with
              | .ascending => m.TotallyBelow n
              | .descending => n.TotallyBelow m))
      ∧ (∀ rows sorted, StablySorted (compareRows key direction) rows sorted
          ↔ sorted = sortRows key direction rows)
      ∧ ∀ sort, Dependable sort → ∀ rows,
          sort (compareRows key direction) rows = some (sortRows key direction rows) := by
  have lawful : IsTotalPreorder (compareRows key direction) :=
    isTotalPreorder_iff.mpr inferInstance
  refine ⟨lawful, fun a b m n left right => ?_, fun _ _ => stablySorted_iff, ?_⟩
  · rw [compareRows_numbers left right]
    cases direction with
    | ascending =>
      exact ⟨compare_eq_iff_eq.trans Number.totalRank_inj,
        compare_lt_iff_lt.trans Number.totallyBelow_iff.symm⟩
    | descending =>
      exact ⟨compare_eq_iff_eq.trans (Number.totalRank_inj.trans eq_comm),
        compare_lt_iff_lt.trans Number.totallyBelow_iff.symm⟩
  · intro sort dependable rows
    obtain ⟨sorted, answer, stably⟩ := dependable _ lawful rows
    rw [answer, stablySorted_iff.mp stably]

end Query

namespace Sample

/-- A sort that gives up if it finds two rows that do not compare the same from both sides. -/
def cautiousSort (compare : Record → Record → Ordering) (rows : List Record)
    : Option (List Record) :=
  if rows.all fun a => rows.all fun b => compare b a == (compare a b).swap then
    some (rows.mergeSort fun a b => (compare a b).isLE)
  else none

theorem dependable_cautiousSort : Query.Dependable cautiousSort := by
  intro compare lawful rows
  have := isTotalPreorder_iff.mp lawful
  have agreed : rows.all fun a => rows.all fun b => compare b a == (compare a b).swap := by
    simp only [List.all_eq_true, beq_iff_eq]
    exact fun a _ b _ => lawful.swap a b
  exact ⟨_, if_pos agreed, stablySorted_mergeSort rows⟩

def levelRow (v : Value) : Record := Fields.ofList [("level", v)]

def mixedRows : List Record :=
  [levelRow .undefined, levelRow (.number .zero), levelRow .null, levelRow (.string "low"),
    levelRow (.number (-.zero)), levelRow (.number .nan), levelRow (.bool true),
    levelRow (.number .invalid)]

/-- From the highest to the lowest, with the row that has no level last all the same. -/
theorem mixedRows_sorted
    : Query.Dependable cautiousSort
      ∧ cautiousSort (Query.compareRows "level" .descending) mixedRows
        = some [levelRow (.string "low"), levelRow (.number .nan), levelRow (.number .zero),
          levelRow (.number (-.zero)), levelRow (.number .invalid), levelRow (.bool true),
          levelRow .null, levelRow .undefined] := by
  obtain ⟨-, -, -, relied⟩ := Query.compareRows_lawful "level" .descending
  refine ⟨dependable_cautiousSort, (relied _ dependable_cautiousSort mixedRows).trans ?_⟩
  simp +decide [Query.sortRows, mixedRows, List.mergeSort]

end Sample

end RuleEngine
