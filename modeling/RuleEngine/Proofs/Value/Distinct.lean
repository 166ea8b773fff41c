import Mathlib.Data.List.Induction

/-! Lists without repetitions. An item is left out if the same one stands before it, so each is kept
at its first place, and what is kept of two lists together is what is kept of the one and then, of
what is kept of the other, the items that are new.
-/

namespace RuleEngine

section

variable {α : Type} (same : α → α → Bool)

/-- A list without the items that are the same as an earlier one. -/
def keepFirst (same : α → α → Bool) (xs : List α) : List α :=
  xs.foldl (fun kept x => if kept.any (same · x) then kept else kept ++ [x]) []

/-- Whether an item stands nowhere before its position. -/
def standsFirst (same : α → α → Bool) (xs : List α) (entry : α × Nat) : Bool :=
  !(xs.take entry.2).any (same · entry.1)

theorem keepFirst_concat (xs : List α) (x : α)
    : keepFirst same (xs ++ [x])
      = if (keepFirst same xs).any (same · x) then keepFirst same xs
        else keepFirst same xs ++ [x] := by
  simp [keepFirst, List.foldl_append]

/-- No two items that are kept are the same. -/
theorem pairwise_keepFirst (xs : List α)
    : (keepFirst same xs).Pairwise fun x y => same x y = false := by
  induction xs using List.reverseRecOn with
  | nil => exact .nil
  | append_singleton xs last ih =>
    rw [keepFirst_concat]
    split
    · exact ih
    · rename_i new
      refine List.pairwise_append.mpr ⟨ih, List.pairwise_singleton _ _, fun x kept y isLast => ?_⟩
      obtain rfl := List.mem_singleton.mp isLast
      exact Bool.eq_false_iff.mpr fun repeated => new (List.any_eq_true.mpr ⟨x, kept, repeated⟩)

variable (trans : ∀ x y z, same x y → same y z → same x z)

include trans

/-- An item has a same one among those that are kept if and only if it has one at all, by induction
on the list, of which the last item is left out only for another one.
-/
theorem any_keepFirst (xs : List α) (x : α)
    : (keepFirst same xs).any (same · x) = xs.any (same · x) := by
  induction xs using List.reverseRecOn with
  | nil => rfl
  | append_singleton xs last ih =>
    rw [keepFirst_concat, List.any_append, ← ih]
    split
    · rename_i repeated
      cases isSame : same last x with
      | false => simp [isSame]
      | true =>
        obtain ⟨other, member, sameLast⟩ := List.any_eq_true.mp repeated
        have reached : (keepFirst same xs).any (same · x) :=
          List.any_eq_true.mpr ⟨other, member, trans other last x sameLast isSame⟩
        simp [reached]
    · rw [List.any_append]

/-- The items that are kept are those that stand nowhere before, by induction on the list. -/
theorem map_filter_standsFirst (xs : List α)
    : (xs.zipIdx.filter (standsFirst same xs)).map Prod.fst = keepFirst same xs := by
  induction xs using List.reverseRecOn with
  | nil => rfl
  | append_singleton xs last ih =>
    have before : xs.zipIdx.filter (standsFirst same (xs ++ [last]))
        = xs.zipIdx.filter (standsFirst same xs) := by
      refine List.filter_congr fun entry member => ?_
      have within : entry.2 ≤ xs.length := by
        have := List.snd_lt_of_mem_zipIdx member
        omega
      simp only [standsFirst, List.take_append_of_le_length within]
    rw [List.zipIdx_append, List.filter_append, List.map_append, before, ih, keepFirst_concat,
      any_keepFirst same trans]
    cases repeated : xs.any (same · last) <;> simp [standsFirst, repeated, List.zipIdx]

/-- What is kept of two lists, by induction on the second: its last item is kept if it is in neither
of the lists.
-/
theorem keepFirst_append (xs ys : List α)
    : keepFirst same (xs ++ ys)
      = keepFirst same xs
        ++ (keepFirst same ys).filter fun y => !(keepFirst same xs).any (same · y) := by
  induction ys using List.reverseRecOn with
  | nil => simp [keepFirst]
  | append_singleton ys last ih =>
    rw [← List.append_assoc, keepFirst_concat, keepFirst_concat, any_keepFirst same trans,
      any_keepFirst same trans, List.any_append, ih]
    cases inSecond : ys.any (same · last) with
    | true => simp
    | false =>
      cases inFirst : xs.any (same · last) with
      | true => simp [any_keepFirst same trans, inFirst]
      | false => simp [any_keepFirst same trans, inFirst]

/-- Every item of a list has exactly one same item among those that are kept. -/
theorem countP_keepFirst (refl : ∀ x, same x x) (symm : ∀ x y, same x y → same y x)
    {xs : List α} {x : α} (member : x ∈ xs)
    : (keepFirst same xs).countP (same · x) = 1 := by
  have some? : 0 < (keepFirst same xs).countP (same · x) := by
    have there : (keepFirst same xs).any (same · x) := by
      rw [any_keepFirst same trans]
      exact List.any_eq_true.mpr ⟨x, member, refl x⟩
    simpa [List.countP_pos_iff] using there
  have apart := (pairwise_keepFirst same xs).filter (same · x)
  have like : ∀ y ∈ (keepFirst same xs).filter (same · x), same y x := by simp
  rw [List.countP_eq_length_filter] at some? ⊢
  generalize (keepFirst same xs).filter (same · x) = found at *
  rcases found with _ | ⟨y, _ | ⟨z, rest⟩⟩
  · simp at some?
  · rfl
  · have together := trans y x z (like y (by simp)) (symm z x (like z (by simp)))
    simp [together] at apart

end

end RuleEngine
