import Mathlib.Data.List.Forall2
import RuleEngine.Value.Equality
import RuleEngine.Value.Lemmas

/-! Sameness is an equivalence. Lists are the same item by item, and records entry by entry, so what
one of two same records holds under a key the other holds there too.
-/

namespace RuleEngine

theorem Number.same_comm (a b : Number) : a.same b = b.same a := by
  simp only [Number.same, Bool.and_comm, Bool.beq_comm]

theorem Number.same_trans {a b c : Number} (first : a.same b) (second : b.same c) : a.same c := by
  simp only [Number.same, Bool.or_eq_true, Bool.and_eq_true, beq_iff_eq] at *
  rcases first with ⟨nan, nan'⟩ | bits
  · rcases second with ⟨-, nan''⟩ | bits'
    · exact .inl ⟨nan, nan''⟩
    · obtain rfl : b = c := by cases b; cases c; simpa using bits'
      exact .inl ⟨nan, nan'⟩
  · obtain rfl : a = b := by cases a; cases b; simpa using bits
    exact second

namespace Value

-- --------------------------------------------------------------------------------------
-- Parts
-- --------------------------------------------------------------------------------------

/-- Lists are the same item by item. -/
theorem sameItems_iff {vs ws : List Value}
    : sameItems vs ws ↔ List.Forall₂ (fun v w => v.same w) vs ws := by
  induction vs generalizing ws with
  | nil => cases ws <;> simp [sameItems]
  | cons v vs ih =>
    cases ws with
    | nil => simp [sameItems]
    | cons w ws => simp [sameItems, ih]

/-- Two entries have the same key and the same value. -/
def SameEntry (entry entry' : String × Value) : Prop := entry.1 = entry'.1 ∧ entry.2.same entry'.2

/-- Records are the same entry by entry. -/
theorem sameFields_iff {bound bound' : Option String} {r : Fields bound} {s : Fields bound'}
    : sameFields r s ↔ List.Forall₂ SameEntry r.toList s.toList := by
  induction r generalizing bound' with
  | nil => cases s <;> simp [sameFields, Fields.toList]
  | cons key above v rest ih =>
    cases s with
    | nil => simp [sameFields, Fields.toList]
    | cons key' above' w rest' => simp [sameFields, Fields.toList, ih, SameEntry]

/-- What a record holds under a key, the same record holds there too; by induction on the record. -/
theorem exists_same_of_get? {bound bound' : Option String} {r : Fields bound} {s : Fields bound'}
    (same : sameFields r s) {key : String} {v : Value} (found : r.get? key = some v)
    : ∃ w, s.get? key = some w ∧ v.same w := by
  induction r generalizing bound' with
  | nil => cases found
  | cons key' above u rest ih =>
    cases s with
    | nil => simp [sameFields] at same
    | cons key'' above' w rest' =>
      simp only [sameFields, Bool.and_eq_true, beq_iff_eq] at same
      obtain ⟨⟨rfl, sameValue⟩, sameRest⟩ := same
      simp only [Fields.get?] at found ⊢
      split at found
      · rename_i here
        obtain rfl := Option.some.inj found
        exact ⟨w, by simp [here], sameValue⟩
      · rename_i there
        rw [if_neg there]
        exact ih sameRest found

/-- A text is the same as itself alone. -/
theorem string_same_iff {s : String} {v : Value} : (string s).same v ↔ v = string s := by
  cases v with
  | string t =>
    simp only [same, beq_iff_eq, string.injEq]
    exact eq_comm
  | _ => simp [same]

-- --------------------------------------------------------------------------------------
-- An equivalence
-- --------------------------------------------------------------------------------------

section

variable {α : Type} {R : α → α → Prop} {as bs cs : List α}

/-- Symmetry goes over from the items of a list to the list. -/
private theorem forall₂_symm_of (each : ∀ a ∈ as, ∀ b, R a b → R b a)
    (related : List.Forall₂ R as bs)
    : List.Forall₂ R bs as := by
  have onItems := (List.forall₂_and_left as bs).mpr ⟨fun a member => member, related⟩
  exact (onItems.imp fun a b ⟨member, here⟩ => each a member b here).flip

/-- Transitivity goes over from the items of a list to the list, by induction on it. -/
private theorem forall₂_trans_of (each : ∀ a ∈ as, ∀ b c, R a b → R b c → R a c)
    (first : List.Forall₂ R as bs) (second : List.Forall₂ R bs cs)
    : List.Forall₂ R as cs := by
  induction first generalizing cs with
  | nil => exact second
  | cons here _ ih =>
    cases second with
    | cons here' rest' =>
      have others := ih (fun a member => each a (List.mem_cons_of_mem _ member)) rest'
      exact .cons (each _ List.mem_cons_self _ _ here here') others

end

/-- The values of entries are values of the record. -/
theorem mem_values_of_mem_toList {r : Record} {entry : String × Value} (member : entry ∈ r.toList)
    : entry.2 ∈ r.values :=
  List.mem_map_of_mem member

/-- Every value is the same as itself, by induction on it. -/
theorem same_refl (v : Value) : v.same v := by
  induction v using Value.induction with
  | undefined | null | bool | string | date => simp [same]
  | number n => simp [same, Number.same]
  | fact f => simp [same]
  | list items ih =>
    rw [same]
    exact sameItems_iff.mpr (List.forall₂_same.mpr ih)
  | map fields ih =>
    rw [same]
    refine sameFields_iff.mpr (List.forall₂_same.mpr fun entry member => ⟨rfl, ?_⟩)
    exact ih entry.2 (mem_values_of_mem_toList member)

/-- By induction on the first value. -/
theorem same_symm {v w : Value} (equal : v.same w) : w.same v := by
  induction v using Value.induction generalizing w with
  | list items ih =>
    cases w with
    | list ws =>
      simp only [same, sameItems_iff] at equal ⊢
      exact forall₂_symm_of (fun v member w => ih v member) equal
    | _ => simp [same] at equal
  | map fields ih =>
    cases w with
    | map fields' =>
      simp only [same, sameFields_iff] at equal ⊢
      exact forall₂_symm_of
        (fun entry member entry' sameEntry =>
          ⟨sameEntry.1.symm, ih entry.2 (mem_values_of_mem_toList member) sameEntry.2⟩) equal
    | _ => simp [same] at equal
  | number n => cases w <;> simp_all [same, Number.same_comm]
  | _ => cases w <;> simp_all [same]

/-- By induction on the first value. -/
theorem same_trans {u v w : Value} (first : u.same v) (second : v.same w) : u.same w := by
  induction u using Value.induction generalizing v w with
  | list items ih =>
    cases v with
    | list vs =>
      cases w with
      | list ws =>
        simp only [same, sameItems_iff] at first second ⊢
        exact forall₂_trans_of (fun v member _ _ => ih v member) first second
      | _ => simp [same] at second
    | _ => simp [same] at first
  | map fields ih =>
    cases v with
    | map fields' =>
      cases w with
      | map fields'' =>
        simp only [same, sameFields_iff] at first second ⊢
        exact forall₂_trans_of
          (fun entry member _ _ here there =>
            ⟨here.1.trans there.1, ih entry.2 (mem_values_of_mem_toList member) here.2 there.2⟩)
          first second
      | _ => simp [same] at second
    | _ => simp [same] at first
  | number n =>
    cases v with
    | number m =>
      cases w with
      | number k => exact Number.same_trans first second
      | _ => simp [same] at second
    | _ => simp [same] at first
  | fact f =>
    cases v with
    | fact g => cases w <;> simp_all [same]
    | _ => simp [same] at first
  | undefined | null =>
    cases v <;> simp [same] at first
    exact second
  | bool | string | date =>
    cases v <;> simp [same] at first
    exact first ▸ second

end Value

namespace Fields

theorem same_map (r s : Record) : (Value.map r).same (.map s) = r.same s := by
  rw [Value.same, Fields.same]

theorem same_trans {r s t : Record} (first : r.same s) (second : s.same t) : r.same t := by
  rw [← same_map] at first second ⊢
  exact Value.same_trans first second

end Fields

end RuleEngine
