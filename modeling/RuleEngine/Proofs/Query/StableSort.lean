import Mathlib.Data.List.Sort

/-! Stable sorts by a comparison. A comparison that is a total preorder leaves a stable sort no
choice: there is one list that holds the items in order, ties as they stood. A merge sort finds it.
-/

namespace RuleEngine

open Std

variable {α : Type} {compare : α → α → Ordering}

/-- What a sort asks of a comparison. -/
structure IsTotalPreorder (compare : α → α → Ordering) : Prop where
  refl (a : α) : compare a a = .eq
  swap (a b : α) : compare b a = (compare a b).swap
  less {a b c : α} : compare a b = .lt → compare b c = .lt → compare a c = .lt
  notGreater {a b c : α} : compare a b ≠ .gt → compare b c ≠ .gt → compare a c ≠ .gt

theorem isTotalPreorder_iff : IsTotalPreorder compare ↔ TransCmp compare := by
  constructor
  · intro laws
    exact {
      eq_swap := laws.swap _ _
      isLE_trans := by
        simp only [Ordering.isLE_iff_ne_gt]
        exact laws.notGreater
    }
  · intro _
    exact {
      refl := fun _ => ReflCmp.compare_self
      swap := fun _ _ => OrientedCmp.eq_swap
      less := TransCmp.lt_trans
      notGreater := by
        simp only [← Ordering.isLE_iff_ne_gt]
        exact TransCmp.isLE_trans
    }

/-- A list holds some items in the order of a comparison, and those that compare equal in the order
in which they stood.
-/
structure StablySorted (compare : α → α → Ordering) (items sorted : List α) : Prop where
  perm : sorted.Perm items
  ordered : sorted.Pairwise fun a b => compare a b ≠ .gt
  stable (a : α) : sorted.filter (compare a · == .eq) = items.filter (compare a · == .eq)

section

variable [TransCmp compare]

/-- The first items of two ordered lists of the same items come before each other, so they are tied.
Both are then the first of the items that are tied with them. By induction on the lists.
-/
theorem eq_of_ordered {xs ys : List α} (perm : xs.Perm ys)
    (ordered : xs.Pairwise fun a b => compare a b ≠ .gt)
    (ordered' : ys.Pairwise fun a b => compare a b ≠ .gt)
    (ties : ∀ a, xs.filter (compare a · == .eq) = ys.filter (compare a · == .eq))
    : xs = ys := by
  induction xs generalizing ys with
  | nil => exact perm.nil_eq
  | cons x xs ih =>
    cases ys with
    | nil => cases perm.eq_nil
    | cons y ys =>
      have below : compare x y ≠ .gt := by
        rcases List.mem_cons.mp (perm.mem_iff.mpr List.mem_cons_self) with same | later
        · simp [same, ReflCmp.compare_self]
        · exact (List.pairwise_cons.mp ordered).1 y later
      have above : compare y x ≠ .gt := by
        rcases List.mem_cons.mp (perm.mem_iff.mp List.mem_cons_self) with same | later
        · simp [same, ReflCmp.compare_self]
        · exact (List.pairwise_cons.mp ordered').1 x later
      have tied : compare x y = .eq := by
        have swapped : compare y x = (compare x y).swap := OrientedCmp.eq_swap
        rw [swapped] at above
        cases compared : compare x y with
        | eq => rfl
        | lt => simp [compared] at above
        | gt => exact absurd compared below
      have firsts := ties x
      simp only [List.filter_cons, ReflCmp.compare_self, tied, BEq.rfl, if_true] at firsts
      obtain rfl := (List.cons.inj firsts).1
      refine congrArg _ (ih perm.cons_inv ordered.tail ordered'.tail fun a => ?_)
      have ties := ties a
      simp only [List.filter_cons] at ties
      split at ties
      · exact (List.cons.inj ties).2
      · exact ties

variable {items sorted : List α}

theorem StablySorted.unique {sorted' : List α} (here : StablySorted compare items sorted)
    (there : StablySorted compare items sorted')
    : sorted = sorted' :=
  eq_of_ordered (here.perm.trans there.perm.symm) here.ordered there.ordered fun a =>
    (here.stable a).trans (there.stable a).symm

/-- A merge sort is stable: the items that are tied with one of them are a sorted part of the list,
which the sort keeps, and they do not become more.
-/
theorem stablySorted_mergeSort (items : List α)
    : StablySorted compare items (items.mergeSort fun a b => (compare a b).isLE) := by
  have trans (a b c : α) (first : (compare a b).isLE) (second : (compare b c).isLE)
      : (compare a c).isLE :=
    TransCmp.isLE_trans first second
  have total (a b : α) : (compare a b).isLE || (compare b a).isLE := by
    have swapped : compare b a = (compare a b).swap := OrientedCmp.eq_swap
    rw [swapped]
    cases compare a b <;> rfl
  have perm := List.mergeSort_perm items fun a b => (compare a b).isLE
  refine ⟨perm, ?_, fun a => ?_⟩
  · simpa only [Ordering.isLE_iff_ne_gt] using List.pairwise_mergeSort trans total items
  · let ties := items.filter (compare a · == .eq)
    have sorted : ties.Pairwise fun b c => (compare b c).isLE := by
      refine List.pairwise_of_forall_mem_list fun b left c right => ?_
      have left : compare a b = .eq := by simpa using (List.mem_filter.mp left).2
      have right : compare a c = .eq := by simpa using (List.mem_filter.mp right).2
      simp [TransCmp.eq_trans (OrientedCmp.eq_symm left) right]
    have within := (List.sublist_mergeSort trans total sorted List.filter_sublist).filter
      (compare a · == .eq)
    refine (List.Sublist.eq_of_length ?_ (perm.filter _).length_eq.symm).symm
    simpa [ties] using within

end

end RuleEngine
