import Mathlib.Data.List.TakeWhile
import RuleEngine.Proofs.Pattern.Termination

/-! Plain data, in which no text stands for anything but itself, and the variables that occur in
patterns. A plain value that is read as a pattern has no variables and matches itself.
-/

namespace RuleEngine

-- --------------------------------------------------------------------------------------
-- Plain values
-- --------------------------------------------------------------------------------------

/-- A text that no pattern is read from: neither the wildcard nor, with or without dots, a variable.
-/
def Variable.IsPlainText (s : String) : Prop :=
  s ≠ Pattern.wildcardText ∧ isVariable ((dropDots? s).getD s) = false

instance (s : String) : Decidable (Variable.IsPlainText s) :=
  inferInstanceAs (Decidable (_ ∧ _))

/-- A plain text asks for no rest. -/
theorem Variable.IsPlainText.isRest {s : String} (plain : IsPlainText s) : isRest s = false := by
  obtain ⟨-, notVariable⟩ := plain
  unfold Variable.isRest
  cases dots : dropDots? s with
  | none => rfl
  | some name => simpa [dots] using notVariable

/-- A plain text is no variable: a text with dots in front never is. -/
theorem Variable.IsPlainText.isVariable {s : String} (plain : IsPlainText s)
    : isVariable s = false := by
  obtain ⟨-, notVariable⟩ := plain
  cases dots : dropDots? s with
  | none => simpa [dots] using notVariable
  | some name =>
    unfold dropDots? at dots
    split at dots
    · rename_i rest chars
      simp [Variable.isVariable, chars]
    · cases dots

namespace Value

/-- All texts in a value are plain, at any depth. -/
def IsPlain (v : Value) : Prop := ∀ s ∈ v.texts, Variable.IsPlainText s

instance (v : Value) : Decidable v.IsPlain := inferInstanceAs (Decidable (∀ s ∈ v.texts, _))

/-- To be plain goes over to parts, since they have no other texts. -/
theorem hereditary_isPlain : Hereditary IsPlain where
  item {vs _} plain member s here :=
    plain s ((hereditary_texts (list vs).texts).item (List.Subset.refl _) member here)
  slice {vs _ _} plain s here :=
    plain s ((hereditary_texts (list vs).texts).slice (List.Subset.refl _) here)
  field {v _ _ _} plain record found s here :=
    plain s ((hereditary_texts v.texts).field (List.Subset.refl _) record found here)

theorem mem_textsFields {bound : Option String} {r : Fields bound} {s : String}
    : s ∈ textsFields r ↔ ∃ v ∈ r.values, s ∈ v.texts := by
  induction r with
  | nil => simp [textsFields, Fields.values, Fields.toList]
  | cons key above first rest ih =>
    simp [textsFields, Fields.values, Fields.toList, ih]

end Value

/-- The texts of bindings are texts of bound values. -/
theorem Bindings.All.plainTexts {b : Bindings} (plain : b.All Value.IsPlain)
    : ∀ s ∈ Value.textsFields b, Variable.IsPlainText s := by
  intro s here
  obtain ⟨v, member, inside⟩ := Value.mem_textsFields.mp here
  obtain ⟨⟨name, _⟩, entry, rfl⟩ := List.mem_map.mp member
  exact plain name _ ((Fields.mem_toList_iff b).mp entry) s inside

namespace Pattern

-- --------------------------------------------------------------------------------------
-- Patterns
-- --------------------------------------------------------------------------------------

mutual

/-- The variables that occur in a pattern, those of rests included. -/
def varNames : Pattern → List String
  | var name | rest name => [name]
  | seq items => varNamesItems items
  | record fields => varNamesFields fields
  | wildcard | test _ | exact _ => []

def varNamesItems : List Pattern → List String
  | [] => []
  | item :: items => item.varNames ++ varNamesItems items

def varNamesFields : List (String × Pattern) → List String
  | [] => []
  | (_, field) :: fields => field.varNames ++ varNamesFields fields

end

theorem varNamesItems_eq_flatMap (items : List Pattern)
    : varNamesItems items = items.flatMap varNames := by
  induction items with
  | nil => rfl
  | cons item items ih => simp [varNamesItems, ih]

theorem varNamesFields_eq_flatMap (fields : List (String × Pattern))
    : varNamesFields fields = fields.flatMap (·.2.varNames) := by
  induction fields with
  | nil => rfl
  | cons field fields ih => simp [varNamesFields, ih]

-- --------------------------------------------------------------------------------------
-- Plain values as patterns
-- --------------------------------------------------------------------------------------

theorem ofText_of_plain {s : String} (plain : Variable.IsPlainText s)
    : ofText s = exact (.string s) := by
  simp [ofText, plain.1, plain.isVariable]

/-- Plain items are read one by one, by induction on them. -/
theorem ofItems_of_plain {items : List Value} (plain : ∀ v ∈ items, v.IsPlain)
    : ofItems items = items.map ofValue := by
  induction items with
  | nil => rfl
  | cons item items ih =>
    have others := ih fun v member => plain v (List.mem_cons_of_mem _ member)
    have here := plain item List.mem_cons_self
    cases item with
    | string s =>
      have text : Variable.IsPlainText s := here s (by simp [Value.texts])
      simp [ofItems, ofValue, text.isRest, others]
    | _ => simp [ofItems, others]

/-- Entries are read one by one, by induction on the record. -/
theorem ofFields_eq_map {bound : Option String} (r : Fields bound)
    : ofFields r = r.toList.map fun entry => (entry.1, ofValue entry.2) := by
  induction r with
  | nil => rfl
  | cons key above value rest ih => simp [ofFields, Fields.toList, ih]

theorem isRest_ofValue (v : Value) : (ofValue v).isRest = false := by
  cases v with
  | string s =>
    simp only [ofValue, ofText]
    split
    · rfl
    · split <;> rfl
  | _ => simp [ofValue, isRest]

/-- Without a rest among them items are matched one by one. -/
theorem sequence_of_no_rests {items : List Pattern} (noRests : ∀ p ∈ items, p.isRest = false)
    : sequence items = .plain items := by
  have none : items.dropWhile (!·.isRest) = [] := by
    simpa using noRests
  simp [sequence, none]

/-- A plain value has no variables when it is read as a pattern, by induction on the value. -/
theorem varNames_ofValue {v : Value} (plain : v.IsPlain) : (ofValue v).varNames = [] := by
  induction v using Value.induction with
  | undefined | null | bool | number | date | fact => simp [ofValue, varNames]
  | string s =>
    have text : Variable.IsPlainText s := plain s (by simp [Value.texts])
    simp [ofValue, ofText_of_plain text, varNames]
  | list items ih =>
    have each : ∀ v ∈ items, v.IsPlain := fun v => Value.hereditary_isPlain.item plain
    rw [ofValue, ofItems_of_plain each, varNames, varNamesItems_eq_flatMap]
    simpa using fun v member => ih v member (each v member)
  | map fields ih =>
    rw [ofValue, ofFields_eq_map, varNames, varNamesFields_eq_flatMap]
    simp only [List.flatMap_eq_nil_iff, List.mem_map, forall_exists_index, and_imp]
    rintro _ ⟨name, v⟩ entry rfl
    have found := (Fields.mem_toList_iff fields).mp entry
    exact ih v (List.mem_map_of_mem entry) (Value.hereditary_isPlain.field plain rfl found)

/-- Items that each match bind nothing together if none of them does, by induction on them. -/
theorem matchItems_ofValue_self {depth : Nat} {items : List Value}
    (each : ∀ v ∈ items, ∀ b r, matchWithin depth (ofValue v) v b = some r → r = ⟨true, b⟩)
    {b : Bindings} {r : MatchResult}
    (outcome : matchItems (matchWithin depth) (items.map ofValue) items b = some r)
    : r = ⟨true, b⟩ := by
  induction items generalizing b with
  | nil => simpa [matchItems] using outcome.symm
  | cons item items ih =>
    obtain ⟨first, found, later⟩ := Option.bind_eq_some_iff.mp outcome
    obtain rfl := each item List.mem_cons_self b first found
    exact ih (fun v member => each v (List.mem_cons_of_mem _ member)) later

/-- By induction on the entries. -/
theorem matchFields_ofValue_self {depth : Nat} {record : Record}
    {entries : List (String × Value)} (inside : entries ⊆ record.toList)
    (each : ∀ v ∈ record.values, ∀ b r,
      matchWithin depth (ofValue v) v b = some r → r = ⟨true, b⟩)
    {b : Bindings} {r : MatchResult}
    (outcome : matchFields (matchWithin depth)
      (entries.map fun entry => (entry.1, ofValue entry.2)) record b = some r)
    : r = ⟨true, b⟩ := by
  induction entries generalizing b with
  | nil => simpa [matchFields] using outcome.symm
  | cons entry entries ih =>
    obtain ⟨here, there⟩ := List.cons_subset.mp inside
    have found := (Fields.mem_toList_iff record).mp here
    simp only [List.map_cons, matchFields, found] at outcome
    obtain ⟨first, matched, later⟩ := Option.bind_eq_some_iff.mp outcome
    obtain rfl := each entry.2 (List.mem_map_of_mem here) b first matched
    exact ih there later

/-- A plain value matches itself and binds nothing, by induction on the value. -/
theorem matchWithin_ofValue_self {v : Value} (plain : v.IsPlain) {depth : Nat} {b : Bindings}
    {r : MatchResult} (outcome : matchWithin depth (ofValue v) v b = some r)
    : r = ⟨true, b⟩ := by
  induction v using Value.induction generalizing depth b r with
  | undefined | null | bool | number | date | fact =>
    cases depth with
    | zero => cases outcome
    | succ depth => simpa [ofValue, matchWithin, Value.same, Number.same] using outcome.symm
  | string s =>
    have text : Variable.IsPlainText s := plain s (by simp [Value.texts])
    rw [ofValue, ofText_of_plain text] at outcome
    cases depth with
    | zero => cases outcome
    | succ depth => simpa [matchWithin, Value.same] using outcome.symm
  | list items ih =>
    have each : ∀ v ∈ items, v.IsPlain := fun v => Value.hereditary_isPlain.item plain
    have noRests : ∀ p ∈ items.map ofValue, p.isRest = false := by
      simpa using fun v _ => isRest_ofValue v
    rw [ofValue, ofItems_of_plain each] at outcome
    cases depth with
    | zero => cases outcome
    | succ depth =>
      simp only [matchWithin, Value.list?, matchSequence, sequence_of_no_rests noRests,
        List.length_map, if_true] at outcome
      exact matchItems_ofValue_self (fun v member b r => ih v member (each v member)) outcome
  | map fields ih =>
    rw [ofValue, ofFields_eq_map] at outcome
    cases depth with
    | zero => cases outcome
    | succ depth =>
      simp only [matchWithin, Value.record?] at outcome
      refine matchFields_ofValue_self (List.Subset.refl _) (fun v member b r matched => ?_) outcome
      obtain ⟨⟨name, _⟩, entry, rfl⟩ := List.mem_map.mp member
      have found := (Fields.mem_toList_iff fields).mp entry
      exact ih _ member (Value.hereditary_isPlain.field plain rfl found) matched

end Pattern

-- --------------------------------------------------------------------------------------
-- Plain bindings
-- --------------------------------------------------------------------------------------

/-- A plain value is no bare variable. -/
theorem Bindings.bareVariable?_of_plain {v : Value} (plain : v.IsPlain)
    : bareVariable? v = none := by
  cases v with
  | string s =>
    have text : Variable.IsPlainText s := plain s (by simp [Value.texts])
    simp [bareVariable?, text.isVariable]
  | _ => rfl

/-- Under plain bindings a chain ends at once. -/
theorem Bindings.All.chainEnd? {b : Bindings} (plain : b.All Value.IsPlain) (name : String)
    : b.chainEnd? name
      = some (match b.get? name with
        | none => .unbound name
        | some v => .value v) := by
  cases bound : b.get? name with
  | none => exact chainEnd?_of_unbound bound
  | some v => exact chainEnd?_of_bound bound (bareVariable?_of_plain (plain name v bound))

end RuleEngine
