import RuleEngine.Proofs.Pattern.Outcomes
import RuleEngine.Proofs.Value.Sameness

/-! What plain data accepts when it is read as a pattern: the values that contain it. Containment is
a relation on values alone, which is asymmetric only in the keys of maps, and every value contains
itself.
-/

namespace RuleEngine

namespace Value

/-- A value contains another one, down to what the same values are. -/
inductive Contains : Value → Value → Prop where
  /-- A list contains a list of the same length whose items it contains position by position. -/
  | list {ws us : List Value} (each : List.Forall₂ Contains ws us) : Contains (.list ws) (.list us)
  /-- A map or a fact contains a map if it has every key of it and contains what stands there. -/
  | map {w : Value} {held fields : Record} (isRecord : w.record? = some held)
    (has : ∀ key, fields.contains key → held.contains key)
    (each : ∀ key v u, held.get? key = some v → fields.get? key = some u → Contains v u)
    : Contains w (.map fields)
  /-- Anything else is contained in nothing but the same value. -/
  | same {w u : Value} (noList : u.list? = none) (noMap : ∀ fields, u ≠ .map fields)
    (same : w.same u)
    : Contains w u

/-- Every value contains itself, by induction on it. -/
theorem contains_refl (v : Value) : v.Contains v := by
  induction v using Value.induction with
  | list items ih => exact .list (List.forall₂_same.mpr ih)
  | map fields ih =>
    refine .map rfl (fun _ held => held) fun key v u here there => ?_
    obtain rfl := Option.some.inj (here.symm.trans there)
    exact ih v (List.mem_map_of_mem ((Fields.mem_toList_iff fields).mpr here))
  | _ => exact .same rfl (by simp) (same_refl _)

theorem contains_iff_same {u w : Value} (noList : u.list? = none)
    (noMap : ∀ fields, u ≠ .map fields)
    : w.Contains u ↔ u.same w := by
  constructor
  · intro contains
    cases contains with
    | list => cases noList
    | map => exact absurd rfl (noMap _)
    | same _ _ same => exact same_symm same
  · intro same
    exact .same noList noMap (same_symm same)

theorem contains_list_iff {w : Value} {us : List Value}
    : w.Contains (.list us) ↔ ∃ ws, w = .list ws ∧ List.Forall₂ Contains ws us := by
  constructor
  · intro contains
    cases contains with
    | list each => exact ⟨_, rfl, each⟩
    | same noList => cases noList
  · rintro ⟨ws, rfl, each⟩
    exact .list each

/-- What holds the entries of a map holds for each of them a value that contains its value. -/
theorem contains_map_iff {w : Value} {fields : Record}
    : w.Contains (.map fields) ↔ ∃ held, w.record? = some held
        ∧ ∀ entry ∈ fields.toList, ∃ v, held.get? entry.1 = some v ∧ v.Contains entry.2 := by
  constructor
  · intro contains
    cases contains with
    | @map _ held _ isRecord has each =>
      refine ⟨held, isRecord, fun ⟨key, u⟩ member => ?_⟩
      have found := (Fields.mem_toList_iff fields).mp member
      obtain ⟨v, there⟩ := Option.isSome_iff_exists.mp (has key (by simp [Fields.contains, found]))
      exact ⟨v, there, each key v u there found⟩
    | same _ noMap => exact absurd rfl (noMap fields)
  · rintro ⟨held, isRecord, each⟩
    refine .map isRecord (fun key held => ?_) fun key v u here found => ?_
    · obtain ⟨u, found⟩ := Option.isSome_iff_exists.mp held
      obtain ⟨v, there, -⟩ := each (key, u) ((Fields.mem_toList_iff fields).mpr found)
      simp [Fields.contains, there]
    · obtain ⟨v', there, contains⟩ := each (key, u) ((Fields.mem_toList_iff fields).mpr found)
      obtain rfl := Option.some.inj (here.symm.trans there)
      exact contains

end Value

namespace Pattern

/-- A value that is read as a pattern accepts exactly the values that contain it, and binds nothing.
-/
def AcceptsContaining (u : Value) : Prop :=
  ∀ w b, ∃ isMatch, Outcome (ofValue u) w b ⟨isMatch, b⟩ ∧ (isMatch = true ↔ w.Contains u)

/-- By induction on the items, which are as many as the values. -/
theorem itemsOutcome_ofValue {us ws : List Value} (each : ∀ u ∈ us, AcceptsContaining u)
    (fits : ws.length = us.length) (b : Bindings)
    : ∃ isMatch, ItemsOutcome (us.map ofValue) ws b ⟨isMatch, b⟩
        ∧ (isMatch = true ↔ List.Forall₂ Value.Contains ws us) := by
  induction us generalizing ws with
  | nil =>
    obtain rfl := List.length_eq_zero_iff.mp fits
    exact ⟨true, (itemsOutcome_nil []).mpr rfl, by simp⟩
  | cons u us ih =>
    cases ws with
    | nil => cases fits
    | cons w ws =>
      obtain ⟨isMatch, first, accepts⟩ := each u List.mem_cons_self w b
      cases isMatch with
      | false => exact ⟨false, .of_failed first, by simp [← accepts]⟩
      | true =>
        obtain ⟨isMatch, rest, others⟩ :=
          ih (fun u member => each u (List.mem_cons_of_mem _ member)) (Nat.succ.inj fits)
        exact ⟨isMatch, .of_matched first rest, by simp [← accepts, others]⟩

/-- By induction on the entries. -/
theorem fieldsOutcome_ofValue {entries : List (String × Value)} {held : Record}
    (each : ∀ entry ∈ entries, AcceptsContaining entry.2) (b : Bindings)
    : ∃ isMatch,
        FieldsOutcome (entries.map fun entry => (entry.1, ofValue entry.2)) held b ⟨isMatch, b⟩
        ∧ (isMatch = true
          ↔ ∀ entry ∈ entries, ∃ v, held.get? entry.1 = some v ∧ v.Contains entry.2) := by
  induction entries with
  | nil => exact ⟨true, (fieldsOutcome_nil held).mpr rfl, by simp⟩
  | cons entry entries ih =>
    cases found : held.get? entry.1 with
    | none => exact ⟨false, (fieldsOutcome_missing found).mpr rfl, by simp [found]⟩
    | some v =>
      obtain ⟨isMatch, first, accepts⟩ := each entry List.mem_cons_self v b
      cases isMatch with
      | false => exact ⟨false, .of_failed found first, by simp [found, ← accepts]⟩
      | true =>
        obtain ⟨isMatch, rest, others⟩ :=
          ih fun entry member => each entry (List.mem_cons_of_mem _ member)
        exact ⟨isMatch, .of_matched found first rest, by simp [found, ← accepts, others]⟩

theorem acceptsContaining_of_exact {u : Value} (noList : u.list? = none)
    (noMap : ∀ fields, u ≠ .map fields) (isExact : ofValue u = exact u)
    : AcceptsContaining u := by
  intro w b
  refine ⟨u.same w, ?_, ?_⟩
  · rw [isExact, outcome_exact]
  · rw [Value.contains_iff_same noList noMap]

/-- Plain data accepts the values that contain it, by induction on it. -/
theorem acceptsContaining_of_plain {u : Value} (plain : u.IsPlain) : AcceptsContaining u := by
  induction u using Value.induction with
  | undefined | null | bool | number | date | fact =>
    exact acceptsContaining_of_exact rfl (by simp) (by rw [ofValue])
  | string s =>
    have text : Variable.IsPlainText s := plain s (by simp [Value.texts])
    exact acceptsContaining_of_exact rfl (by simp) (by rw [ofValue, ofText_of_plain text])
  | list us ih =>
    intro w b
    have each : ∀ u ∈ us, u.IsPlain := fun u => Value.hereditary_isPlain.item plain
    have noRests : ∀ p ∈ us.map ofValue, p.isRest = false := by
      simpa using fun u _ => isRest_ofValue u
    rw [ofValue, ofItems_of_plain each, Value.contains_list_iff]
    cases list : w.list? with
    | none =>
      refine ⟨false, (outcome_seq_of_none list).mpr rfl, ?_⟩
      simpa using fun ws isList => by simp [isList, Value.list?] at list
    | some ws =>
      obtain rfl := Value.list?_eq_some_iff.mp list
      by_cases fits : ws.length = us.length
      · obtain ⟨isMatch, outcome, accepts⟩ :=
          itemsOutcome_ofValue (fun u member => ih u member (each u member)) fits b
        exact ⟨isMatch, (outcome_seq_plain noRests (by simpa using fits)).mpr outcome,
          by simpa using accepts⟩
      · refine ⟨false, (outcome_seq_misfit noRests (by simpa using fits)).mpr rfl, ?_⟩
        simpa using fun contains => fits contains.length_eq
  | map fields ih =>
    intro w b
    rw [ofValue, ofFields_eq_map, Value.contains_map_iff]
    cases isRecord : w.record? with
    | none => exact ⟨false, (outcome_record_of_none isRecord).mpr rfl, by simp⟩
    | some held =>
      have each : ∀ entry ∈ fields.toList, AcceptsContaining entry.2 := fun entry member =>
        ih entry.2 (Value.mem_values_of_mem_toList member)
          (Value.hereditary_isPlain.field plain rfl ((Fields.mem_toList_iff fields).mp member))
      obtain ⟨isMatch, outcome, accepts⟩ := fieldsOutcome_ofValue each b
      exact ⟨isMatch, (outcome_record isRecord).mpr outcome, by simpa using accepts⟩

/-- A variable that is bound to plain data accepts exactly the values that contain the data, and so
does the data itself when it is read as a pattern; either binds nothing. Every value contains
itself.
-/
theorem match?_bound_iff_contains {u : Value} (plain : u.IsPlain)
    : (∀ w b, ∃ isMatch, (ofValue u).match? w b = some ⟨isMatch, b⟩
        ∧ (isMatch = true ↔ w.Contains u)
        ∧ ∀ name, b.get? name = some u → (var name).match? w b = some ⟨isMatch, b⟩)
      ∧ ∀ v : Value, v.Contains v := by
  refine ⟨fun w b => ?_, Value.contains_refl⟩
  obtain ⟨isMatch, outcome, accepts⟩ := acceptsContaining_of_plain plain w b
  refine ⟨isMatch, outcome.match?_eq, accepts, fun name bound => ?_⟩
  exact ((outcome_var_of_bound bound (Bindings.bareVariable?_of_plain plain)).mpr outcome).match?_eq

end Pattern

namespace Sample

open Pattern

/-- A map in a list, with a number that is none in the map. -/
def measured : Value := .list [.map (.ofList [("level", .number .nan)])]

/-- A fact with a level that is another not-a-number, and a place besides. -/
def reading : Value :=
  .list [.fact ⟨⟨1⟩, "Reading",
    .ofList [("kind", .string "Reading"), ("level", .number .invalid), ("place", .string "?p")]⟩]

/-- The fact stands in for a map, whose keys it has among others, but the map not for the fact. -/
theorem measured_accepts_reading
    : measured.IsPlain
        ∧ (var "?x").match? reading (.ofList [("?x", measured)])
          = some ⟨true, .ofList [("?x", measured)]⟩
        ∧ ¬measured.Contains reading := by
  have plain : measured.IsPlain := by decide +kernel
  obtain ⟨accepts, -⟩ := match?_bound_iff_contains plain
  obtain ⟨isMatch, -, -, bound⟩ := accepts reading (.ofList [("?x", measured)])
  have found := bound "?x" (by simp [Fields.ofList, Fields.insertMany])
  have matched : ((var "?x").match? reading (.ofList [("?x", measured)])).map (·.isMatch)
      = some true := by
    decide +kernel
  rw [found] at matched
  obtain rfl := Option.some.inj matched
  refine ⟨plain, found, fun contains => ?_⟩
  obtain ⟨ws, same, each⟩ := Value.contains_list_iff.mp contains
  cases same
  cases each with
  | cons first _ =>
    cases first with
    | same _ _ same => simp [Value.same] at same

end Sample

end RuleEngine
