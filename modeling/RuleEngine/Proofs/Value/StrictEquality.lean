import Mathlib.Data.List.Perm.Subperm
import RuleEngine.Proofs.Number.Rounding
import RuleEngine.Proofs.Value.Sameness

/-! Strict equality beside sameness. Two values are strictly equal exactly if they are the same once
their negative zeros are made positive, and nothing in them is not-a-number. So strict equality is
symmetric and transitive, and not-a-number is all that keeps it from being reflexive.
-/

namespace RuleEngine

-- --------------------------------------------------------------------------------------
-- Numbers
-- --------------------------------------------------------------------------------------

namespace Number

def IsZero (n : Number) : Prop := n = zero ∨ n = -zero

/-- The number, with the negative zero replaced by the positive one. -/
def unifyZeros (n : Number) : Number := if n = -zero then zero else n

theorem same_iff {n m : Number} : n.same m ↔ n.isNaN ∧ m.isNaN ∨ n = m := by
  obtain ⟨bits⟩ := n
  obtain ⟨bits'⟩ := m
  simp [same]

theorem isZero_of_magnitude {n : Number} (nought : n.magnitude = 0) : n.IsZero := by
  cases sign : n.isNegative with
  | false => exact .inl (eq_of_magnitude sign nought)
  | true => exact .inr (eq_of_magnitude sign nought)

/-- Numbers stand at one place of the number line if they are equal, or if both are zeros. -/
theorem ordinal_eq_iff {n m : Number} : n.ordinal = m.ordinal ↔ n = m ∨ n.IsZero ∧ m.IsZero := by
  constructor
  · intro place
    unfold ordinal at place
    by_cases sign : n.isNegative = m.isNegative
    · have magnitude : n.magnitude = m.magnitude := by
        rw [sign] at place
        split at place <;> omega
      exact .inl (eq_of_magnitude sign magnitude)
    · -- On either side of the origin only the zeros have a place in common.
      have nought : n.magnitude = 0 ∧ m.magnitude = 0 := by
        cases negative : n.isNegative <;> cases negative' : m.isNegative <;>
          simp only [negative, negative', Bool.false_eq_true, ↓reduceIte, not_true]
            at place sign <;>
          omega
      exact .inr ⟨isZero_of_magnitude nought.1, isZero_of_magnitude nought.2⟩
  · rintro (rfl | ⟨rfl | rfl, rfl | rfl⟩) <;> rfl

theorem unifyZeros_of_not_isZero {n : Number} (nonzero : ¬n.IsZero) : n.unifyZeros = n :=
  if_neg fun negative => nonzero (.inr negative)

theorem isZero_unifyZeros_iff {n : Number} : n.unifyZeros.IsZero ↔ n.IsZero := by
  unfold unifyZeros
  split
  · rename_i negative
    exact iff_of_true (.inl rfl) (.inr negative)
  · rfl

theorem unifyZeros_of_isZero {n : Number} (nought : n.IsZero) : n.unifyZeros = zero := by
  rcases nought with rfl | rfl <;> rfl

theorem unifyZeros_eq_iff {n m : Number}
    : n.unifyZeros = m.unifyZeros ↔ n = m ∨ n.IsZero ∧ m.IsZero := by
  constructor
  · intro united
    by_cases nought : n.IsZero
    · have nought' : m.IsZero :=
        isZero_unifyZeros_iff.mp (united ▸ isZero_unifyZeros_iff.mpr nought)
      exact .inr ⟨nought, nought'⟩
    · have nonzero : ¬m.IsZero := fun nought' =>
        nought (isZero_unifyZeros_iff.mp (united ▸ isZero_unifyZeros_iff.mpr nought'))
      rw [unifyZeros_of_not_isZero nought, unifyZeros_of_not_isZero nonzero] at united
      exact .inl united
  · rintro (rfl | ⟨nought, nought'⟩)
    · rfl
    · rw [unifyZeros_of_isZero nought, unifyZeros_of_isZero nought']

theorem isNaN_unifyZeros (n : Number) : n.unifyZeros.isNaN = n.isNaN := by
  unfold unifyZeros
  split
  · rename_i negative
    rw [negative]
    rfl
  · rfl

theorem numericEq_iff {n m : Number}
    : n.numericEq m ↔ n.unifyZeros.same m.unifyZeros ∧ n.isNaN = false := by
  rw [same_iff, isNaN_unifyZeros, isNaN_unifyZeros, unifyZeros_eq_iff, ← ordinal_eq_iff]
  simp only [numericEq, Bool.and_eq_true, Bool.not_eq_true', beq_iff_eq]
  constructor
  · rintro ⟨⟨some, -⟩, place⟩
    exact ⟨.inr place, some⟩
  · rintro ⟨⟨nan, -⟩ | place, some⟩
    · simp [nan] at some
    · have some' : m.isNaN = false := by
        rcases ordinal_eq_iff.mp place with rfl | ⟨-, rfl | rfl⟩
        · exact some
        all_goals rfl
      exact ⟨⟨some, some'⟩, place⟩

/-- A number that is the same as a zero is that zero. -/
theorem isZero_of_same {n m : Number} (nought : n.IsZero) (equal : n.same m) : m.IsZero := by
  rcases same_iff.mp equal with ⟨nan, -⟩ | rfl
  · rcases nought with rfl | rfl <;> cases nan
  · exact nought

theorem isNaN_of_same {n m : Number} (nan : n.isNaN) (equal : n.same m) : m.isNaN := by
  rcases same_iff.mp equal with ⟨-, nan'⟩ | rfl
  · exact nan'
  · exact nan

end Number

namespace Value

section

variable {α β : Type} {R S : α → β → Prop} {as : List α} {bs : List β}

/-- By induction on the relation of the lists. -/
private theorem exists_of_forall₂ (related : List.Forall₂ R as bs) {a : α} (member : a ∈ as)
    : ∃ b ∈ bs, R a b := by
  induction related with
  | nil => cases member
  | cons here _ ih =>
    rcases List.mem_cons.mp member with rfl | later
    · exact ⟨_, List.mem_cons_self, here⟩
    · obtain ⟨b, member', related⟩ := ih later
      exact ⟨b, List.mem_cons_of_mem _ member', related⟩

/-- A relation that comes down to another one and a property of its left side does so for lists, by
induction on the list on the left.
-/
private theorem forall₂_iff_and {P : α → Prop} (each : ∀ a ∈ as, ∀ b, R a b ↔ S a b ∧ P a)
    : List.Forall₂ R as bs ↔ List.Forall₂ S as bs ∧ ∀ a ∈ as, P a := by
  induction as generalizing bs with
  | nil => simp
  | cons a as ih =>
    cases bs with
    | nil => simp
    | cons b bs =>
      have others : List.Forall₂ R as bs ↔ List.Forall₂ S as bs ∧ ∀ a ∈ as, P a :=
        ih fun a member => each a (List.mem_cons_of_mem _ member)
      rw [List.forall₂_cons, List.forall₂_cons, each a List.mem_cons_self, others,
        List.forall_mem_cons]
      tauto

end

-- --------------------------------------------------------------------------------------
-- Numbers within values
-- --------------------------------------------------------------------------------------

/-- A number of some sort is reached in a value through lists and maps. -/
inductive Holds (P : Number → Prop) : Value → Prop where
  | number {n : Number} (here : P n) : Holds P (number n)
  | item {items : List Value} {v : Value} (member : v ∈ items) (inside : Holds P v)
    : Holds P (list items)
  | entry {fields : Record} {v : Value} (member : v ∈ fields.values) (inside : Holds P v)
    : Holds P (map fields)

mutual

/-- The value with every negative zero that is reached through lists and maps replaced by the
positive one.
-/
def unifyZeros : Value → Value
  | number n => number n.unifyZeros
  | list items => list (unifyZerosItems items)
  | map fields => map (unifyZerosFields fields)
  | v => v

def unifyZerosItems : List Value → List Value
  | [] => []
  | v :: vs => v.unifyZeros :: unifyZerosItems vs

def unifyZerosFields {bound : Option String} : Fields bound → Fields bound
  | .nil => .nil
  | .cons key above v rest => .cons key above v.unifyZeros (unifyZerosFields rest)

end

theorem unifyZerosItems_eq_map (vs : List Value) : unifyZerosItems vs = vs.map unifyZeros := by
  induction vs with
  | nil => rfl
  | cons v vs ih => rw [unifyZerosItems, ih, List.map_cons]

theorem toList_unifyZerosFields {bound : Option String} (r : Fields bound)
    : (unifyZerosFields r).toList = r.toList.map fun entry => (entry.1, entry.2.unifyZeros) := by
  induction r with
  | nil => rfl
  | cons key above v rest ih => simp [unifyZerosFields, Fields.toList, ih]

theorem values_unifyZerosFields {bound : Option String} (r : Fields bound)
    : (unifyZerosFields r).values = r.values.map unifyZeros := by
  simp [Fields.values, toList_unifyZerosFields]

section

variable {P Q : Number → Prop}

theorem holds_number_iff {n : Number} : Holds P (number n) ↔ P n :=
  ⟨fun | .number here => here, .number⟩

theorem holds_list_iff {items : List Value} : Holds P (list items) ↔ ∃ v ∈ items, Holds P v :=
  ⟨fun | .item member inside => ⟨_, member, inside⟩, fun ⟨_, member, inside⟩ => .item member inside⟩

theorem holds_map_iff {fields : Record} : Holds P (map fields) ↔ ∃ v ∈ fields.values, Holds P v :=
  ⟨fun | .entry member inside => ⟨_, member, inside⟩,
    fun ⟨_, member, inside⟩ => .entry member inside⟩

/-- A value holds a number of a sort exactly if it does so with its zeros made positive, if the sort
does not depend on the sign of a zero; by induction on the value.
-/
theorem holds_unifyZeros_iff (either : ∀ n : Number, P n.unifyZeros ↔ P n) (v : Value)
    : Holds P v.unifyZeros ↔ Holds P v := by
  induction v using Value.induction with
  | number n => rw [unifyZeros, holds_number_iff, holds_number_iff, either]
  | list items ih =>
    rw [unifyZeros, holds_list_iff, holds_list_iff, unifyZerosItems_eq_map]
    simp only [List.mem_map, exists_exists_and_eq_and]
    exact exists_congr fun v => and_congr_right fun member => ih v member
  | map fields ih =>
    rw [unifyZeros, holds_map_iff, holds_map_iff, values_unifyZerosFields]
    simp only [List.mem_map, exists_exists_and_eq_and]
    exact exists_congr fun v => and_congr_right fun member => ih v member
  | _ => rfl

/-- Values that are the same hold the same numbers, by induction on where the one holds it. -/
theorem Holds.of_same (carries : ∀ n m : Number, P n → n.same m → P m) {v w : Value}
    (holds : Holds P v) (equal : v.same w)
    : Holds P w := by
  induction holds generalizing w with
  | number here =>
    cases w <;> simp only [same, Bool.false_eq_true] at equal
    exact .number (carries _ _ here equal)
  | item member _ ih =>
    cases w <;> simp only [same, Bool.false_eq_true, sameItems_iff] at equal
    obtain ⟨w, member', equal⟩ := exists_of_forall₂ equal member
    exact .item member' (ih equal)
  | entry member _ ih =>
    cases w <;> simp only [same, Bool.false_eq_true, sameFields_iff] at equal
    obtain ⟨entry, listed, rfl⟩ := List.mem_map.mp member
    obtain ⟨entry', member', -, equal⟩ := exists_of_forall₂ equal listed
    exact .entry (mem_values_of_mem_toList member') (ih equal)

end

/-- A value without a zero has none to be made positive, by induction on the value. -/
theorem unifyZeros_of_not_holds {v : Value} (nonzero : ¬v.Holds Number.IsZero)
    : v.unifyZeros = v := by
  induction v using Value.induction with
  | number n =>
    rw [holds_number_iff] at nonzero
    rw [unifyZeros, Number.unifyZeros_of_not_isZero nonzero]
  | list items ih =>
    have same : items.map unifyZeros = items.map id :=
      List.map_congr_left fun v member => ih v member fun inside => nonzero (.item member inside)
    rw [unifyZeros, unifyZerosItems_eq_map, same, List.map_id]
  | map fields ih =>
    have same : fields.toList.map (fun entry => (entry.1, entry.2.unifyZeros))
        = fields.toList.map id := by
      refine List.map_congr_left fun entry member => ?_
      have member := mem_values_of_mem_toList member
      rw [ih entry.2 member fun inside => nonzero (.entry member inside), id]
    rw [unifyZeros, ← Fields.ofList_toList (unifyZerosFields fields), toList_unifyZerosFields, same,
      List.map_id, Fields.ofList_toList]
  | _ => rfl

-- --------------------------------------------------------------------------------------
-- Parts
-- --------------------------------------------------------------------------------------

/-- Lists are strictly equal item by item. -/
theorem strictEqItems_iff {vs ws : List Value}
    : strictEqItems vs ws ↔ List.Forall₂ (fun v w => v.strictEq w) vs ws := by
  induction vs generalizing ws with
  | nil => cases ws <;> simp [strictEqItems]
  | cons v vs ih =>
    cases ws with
    | nil => simp [strictEqItems]
    | cons w ws => simp [strictEqItems, ih]

theorem strictEqEntries_iff {bound bound' : Option String} {r : Fields bound} {s : Fields bound'}
    : strictEqEntries r s
      ↔ ∀ entry ∈ r.toList, ∃ w, s.get? entry.1 = some w ∧ entry.2.strictEq w := by
  induction r with
  | nil => simp [strictEqEntries, Fields.toList]
  | cons key above v rest ih => simp [strictEqEntries, Fields.toList, ih, Option.any_eq_true]

/-- Two entries have the same key and strictly equal values. -/
def StrictEntry (entry entry' : String × Value) : Prop :=
  entry.1 = entry'.1 ∧ entry.2.strictEq entry'.2

/-- A record with as many keys as another one, all of which the other has, has the same keys. -/
theorem keys_eq_of_subset {r s : Record} (size : r.size = s.size) (subset : r.keys ⊆ s.keys)
    : r.keys = s.keys := by
  have nodup : r.keys.Nodup := r.pairwise_keys.imp String.ne_of_lt
  have enough : s.keys.length ≤ r.keys.length := by simpa [Fields.keys, Fields.size] using size.ge
  have perm := (List.subperm_of_subset nodup subset).perm_of_length_le enough
  exact perm.eq_of_pairwise (fun _ _ _ _ before after => absurd after (String.lt_asymm before))
    r.pairwise_keys s.pairwise_keys

/-- Maps are strictly equal entry by entry. The entries of the one are found in the other, which has
no more of them, so both have their keys in the same order.
-/
theorem strictEq_map_iff {r s : Record}
    : (map r).strictEq (map s) ↔ List.Forall₂ StrictEntry r.toList s.toList := by
  rw [strictEq, Bool.and_eq_true, beq_iff_eq, strictEqEntries_iff]
  constructor
  · rintro ⟨size, found⟩
    have keys : r.keys = s.keys := by
      refine keys_eq_of_subset size fun key named => ?_
      obtain ⟨entry, member, rfl⟩ := List.mem_map.mp named
      obtain ⟨w, there, -⟩ := found entry member
      exact List.mem_map.mpr ⟨(entry.1, w), (Fields.mem_toList_iff s).mpr there, rfl⟩
    have aligned : List.Forall₂ (fun entry entry' => entry.1 = entry'.1) r.toList s.toList := by
      rw [← List.forall₂_map_right_iff, ← List.forall₂_map_left_iff, List.forall₂_eq_eq_eq]
      exact keys
    refine List.forall₂_iff_zip.mpr ⟨size, fun {entry entry'} paired => ?_⟩
    have same : entry.1 = entry'.1 := List.forall₂_zip aligned paired
    obtain ⟨member, member'⟩ := List.of_mem_zip paired
    obtain ⟨w, there, equal⟩ := found entry member
    have here := (Fields.mem_toList_iff s).mp member'
    rw [← same, there] at here
    exact ⟨same, Option.some.inj here ▸ equal⟩
  · intro entries
    refine ⟨entries.length_eq, fun entry member => ?_⟩
    obtain ⟨⟨key, w⟩, member', rfl, equal⟩ := exists_of_forall₂ entries member
    exact ⟨w, (Fields.mem_toList_iff s).mp member', equal⟩

-- --------------------------------------------------------------------------------------
-- Strict equality by sameness
-- --------------------------------------------------------------------------------------

/-- By induction on the first value. -/
theorem strictEq_iff {v w : Value}
    : v.strictEq w ↔ v.unifyZeros.same w.unifyZeros ∧ ¬v.Holds (·.isNaN) := by
  induction v using Value.induction generalizing w with
  | number n =>
    cases w <;> simp [strictEq, unifyZeros, same, holds_number_iff, Number.numericEq_iff]
  | list items ih =>
    cases w with
    | list ws =>
      rw [strictEq, unifyZeros, unifyZeros, same, strictEqItems_iff, sameItems_iff,
        unifyZerosItems_eq_map, unifyZerosItems_eq_map, List.forall₂_map_left_iff,
        List.forall₂_map_right_iff, holds_list_iff, forall₂_iff_and fun v member _ => ih v member]
      simp
    | _ => simp [strictEq, unifyZeros, same]
  | map fields ih =>
    cases w with
    | map fields' =>
      rw [strictEq_map_iff, unifyZeros, unifyZeros, same, sameFields_iff,
        toList_unifyZerosFields, toList_unifyZerosFields, List.forall₂_map_left_iff,
        List.forall₂_map_right_iff, holds_map_iff]
      have each : ∀ entry ∈ fields.toList, ∀ entry', StrictEntry entry entry'
          ↔ SameEntry (entry.1, entry.2.unifyZeros) (entry'.1, entry'.2.unifyZeros)
            ∧ ¬entry.2.Holds (·.isNaN) := by
        intro entry member entry'
        rw [StrictEntry, SameEntry, ih entry.2 (mem_values_of_mem_toList member), and_assoc]
      rw [forall₂_iff_and each, Fields.values]
      simp only [List.mem_map, exists_exists_and_eq_and, not_exists, not_and]
    | _ => simp [strictEq, unifyZeros, same]
  | undefined | null | bool | string | date | fact =>
    -- No number is reached in what is neither a number nor made of parts.
    cases w <;> simp [strictEq, unifyZeros, same]
    all_goals
      intros
      rintro ⟨⟩

/-- By sameness of what is left when the negative zeros are made positive. -/
theorem strictEq_symm {v w : Value} (equal : v.strictEq w) : w.strictEq v := by
  obtain ⟨same, none⟩ := strictEq_iff.mp equal
  have same' := same_symm same
  refine strictEq_iff.mpr ⟨same', fun nan => none ?_⟩
  have unify := holds_unifyZeros_iff (P := (·.isNaN)) fun n => by rw [Number.isNaN_unifyZeros]
  have within := Holds.of_same (fun _ _ => Number.isNaN_of_same) ((unify w).mpr nan) same'
  exact (unify v).mp within

theorem strictEq_trans {u v w : Value} (first : u.strictEq v) (second : v.strictEq w)
    : u.strictEq w := by
  obtain ⟨same, none⟩ := strictEq_iff.mp first
  obtain ⟨same', -⟩ := strictEq_iff.mp second
  exact strictEq_iff.mpr ⟨same_trans same same', none⟩

theorem strictEq_self_iff {v : Value} : v.strictEq v ↔ ¬v.Holds (·.isNaN) := by
  rw [strictEq_iff, and_iff_right (same_refl _)]

/-- Without zeros the two equalities only differ in not-a-number. If the one value has no zero, a
value that is the same has none either.
-/
theorem strictEq_iff_same_of_nonzero {v w : Value} (nonzero : ¬v.Holds Number.IsZero)
    : v.strictEq w ↔ v.same w ∧ ¬v.Holds (·.isNaN) := by
  rw [strictEq_iff, unifyZeros_of_not_holds nonzero]
  refine and_congr_left' ?_
  have settled {w' : Value} (equal : v.same w') : ¬w'.Holds Number.IsZero := fun nought =>
    nonzero (Holds.of_same (fun _ _ => Number.isZero_of_same) nought (same_symm equal))
  constructor
  · intro equal
    have nonzero' := mt (holds_unifyZeros_iff (fun n => Number.isZero_unifyZeros_iff) w).mpr
      (settled equal)
    rwa [unifyZeros_of_not_holds nonzero'] at equal
  · intro equal
    rwa [unifyZeros_of_not_holds (settled equal)]

/-- The laws of the two equalities. Sameness is an equivalence. Two values are strictly equal if and
only if they are the same once their negative zeros are made positive, and no not-a-number is
reached in them. So strict equality is symmetric and transitive, a value is strictly equal to itself
unless it holds a not-a-number, and for a value that holds neither that nor a zero the two
equalities agree.
-/
theorem equality_laws
    : (∀ v : Value, v.same v)
      ∧ (∀ v w : Value, v.same w → w.same v)
      ∧ (∀ u v w : Value, u.same v → v.same w → u.same w)
      ∧ (∀ v w : Value,
          v.strictEq w ↔ v.unifyZeros.same w.unifyZeros ∧ ¬v.Holds (·.isNaN))
      ∧ (∀ v w : Value, v.strictEq w → w.strictEq v)
      ∧ (∀ u v w : Value, u.strictEq v → v.strictEq w → u.strictEq w)
      ∧ (∀ v : Value, v.strictEq v ↔ ¬v.Holds (·.isNaN))
      ∧ ∀ v w : Value, ¬v.Holds (·.isNaN) → ¬v.Holds Number.IsZero →
          v.strictEq w = v.same w := by
  refine ⟨same_refl, fun _ _ => same_symm, fun _ _ _ => same_trans, fun _ _ => strictEq_iff,
    fun _ _ => strictEq_symm, fun _ _ _ => strictEq_trans, fun _ => strictEq_self_iff,
    fun v w someNumber nonzero => ?_⟩
  rw [Bool.eq_iff_iff, strictEq_iff_same_of_nonzero nonzero, and_iff_left someNumber]

end Value

namespace Sample

/-- A map with a number in a list. -/
def holding (n : Number) : Value := .map (.ofList [("levels", .list [.number n, .string "low"])])

theorem holds_holding_iff {P : Number → Prop} {n : Number} : (holding n).Holds P ↔ P n := by
  have values : (Fields.ofList [("levels", .list [.number n, .string "low"])]).values
      = [.list [.number n, .string "low"]] := rfl
  have text : ¬(Value.string "low").Holds P := nofun
  rw [holding, Value.holds_map_iff, values]
  simp [Value.holds_list_iff, Value.holds_number_iff, text]

/-- With zeros of different sign two such maps are strictly equal and not the same, with
not-a-number a map is not strictly equal to itself, and with one the equalities agree.
-/
theorem holding_equality_laws
    : (holding (-.zero)).strictEq (holding .zero)
      ∧ (holding .zero).strictEq (holding (-.zero))
      ∧ (holding (-.zero)).same (holding .zero) = false
      ∧ (holding .nan).same (holding .nan)
      ∧ ¬(holding .nan).strictEq (holding .nan)
      ∧ (holding .one).strictEq (holding .zero) = (holding .one).same (holding .zero) := by
  obtain ⟨refl, -, -, -, symm, -, self, agree⟩ := Value.equality_laws
  have equal : (holding (-.zero)).strictEq (holding .zero) := by decide +kernel
  have nan : ¬(holding .one).Holds (·.isNaN) := by
    rw [holds_holding_iff]
    decide
  have zero : ¬(holding .one).Holds Number.IsZero := by
    rw [holds_holding_iff]
    rintro (same | same) <;> cases same
  exact ⟨equal, symm _ _ equal, by decide +kernel, refl _,
    fun equal => (self _).mp equal (holds_holding_iff.mpr rfl), agree _ _ nan zero⟩

end Sample

end RuleEngine
