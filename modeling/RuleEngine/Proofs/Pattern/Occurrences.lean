import RuleEngine.Proofs.Pattern.Outcomes
import RuleEngine.Proofs.Value.Sameness

/-! The variables that are named inside data. Data that is read as a pattern and matched against
the same data comes down to these: each of them is matched against the text that names it.
-/

namespace RuleEngine

/-- How a text inside data names a variable. -/
inductive Occurrence where
  /-- The text is the variable. -/
  | bare (name : String) (isVariable : Variable.isVariable name)
  /-- The text is an item of a list and asks for the rest of the list. -/
  | rest (s : String) (isRest : Variable.isRest s)

namespace Occurrence

/-- The variable that is named. -/
def name : Occurrence → String
  | bare name _ => name
  | rest s _ => Variable.ofName s

/-- What is left for the variable to match if the data is matched against itself. -/
def text : Occurrence → Value
  | bare name _ => .string name
  | rest s _ => .list [.string s]

def isBare : Occurrence → Bool
  | bare .. => true
  | rest .. => false

theorem text_of_isBare {occurrence : Occurrence} (isBare : occurrence.isBare)
    : occurrence.text = .string occurrence.name := by
  cases occurrence with
  | bare => rfl
  | rest => cases isBare

theorem isVariable_of_isBare {occurrence : Occurrence} (isBare : occurrence.isBare)
    : Variable.isVariable occurrence.name := by
  cases occurrence with
  | bare _ isVariable => exact isVariable
  | rest => cases isBare

end Occurrence

namespace Value

/-- The rest of a list that an item of it asks for. -/
def restOf? : Value → Option Occurrence
  | .string s => if isRest : Variable.isRest s then some (.rest s isRest) else none
  | _ => none

mutual

/-- The variables that are named inside a value, through lists and maps, in their order. -/
def occurrences : Value → List Occurrence
  | .string s => if isVariable : Variable.isVariable s then [.bare s isVariable] else []
  | .list items => occurrencesItems items
  | .map fields => occurrencesFields fields
  | _ => []

def occurrencesItems : List Value → List Occurrence
  | [] => []
  | item :: items =>
    (match item.restOf? with
      | some occurrence => [occurrence]
      | none => item.occurrences) ++ occurrencesItems items

def occurrencesFields {bound : Option String} : Fields bound → List Occurrence
  | .nil => []
  | .cons _ _ value more => value.occurrences ++ occurrencesFields more

end

mutual

/-- Whether no list inside a value, through lists and maps, has more than one rest. -/
def isUnambiguous : Value → Bool
  | .list items => (items.filterMap restOf?).length ≤ 1 && isUnambiguousItems items
  | .map fields => isUnambiguousFields fields
  | _ => true

def isUnambiguousItems : List Value → Bool
  | [] => true
  | item :: items => item.isUnambiguous && isUnambiguousItems items

def isUnambiguousFields {bound : Option String} : Fields bound → Bool
  | .nil => true
  | .cons _ _ value more => value.isUnambiguous && isUnambiguousFields more

end

theorem restOf?_string {s : String} (isRest : Variable.isRest s)
    : (string s).restOf? = some (.rest s isRest) := by
  simp [restOf?, isRest]

/-- Only texts ask for rests. -/
theorem exists_of_restOf? {item : Value} {occurrence : Occurrence}
    (asks : item.restOf? = some occurrence)
    : ∃ s isRest, item = string s ∧ occurrence = .rest s isRest := by
  cases item with
  | string s =>
    rw [restOf?] at asks
    split at asks
    · rename_i isRest
      exact ⟨s, isRest, rfl, (Option.some.inj asks).symm⟩
    · cases asks
  | _ => cases asks

theorem occurrencesItems_append (items more : List Value)
    : occurrencesItems (items ++ more) = occurrencesItems items ++ occurrencesItems more := by
  induction items with
  | nil => rfl
  | cons item items ih => simp [occurrencesItems, ih]

theorem occurrencesItems_of_no_rests {items : List Value}
    (noRests : ∀ item ∈ items, item.restOf? = none)
    : occurrencesItems items = items.flatMap occurrences := by
  induction items with
  | nil => rfl
  | cons item items ih =>
    obtain ⟨here, others⟩ := List.forall_mem_cons.mp noRests
    simp [occurrencesItems, here, ih others]

theorem occurrencesFields_eq_flatMap {bound : Option String} (r : Fields bound)
    : occurrencesFields r = r.toList.flatMap (·.2.occurrences) := by
  induction r with
  | nil => rfl
  | cons key above value rest ih => simp [occurrencesFields, Fields.toList, ih]

theorem isUnambiguousItems_iff {items : List Value}
    : isUnambiguousItems items ↔ ∀ item ∈ items, item.isUnambiguous := by
  induction items with
  | nil => simp [isUnambiguousItems]
  | cons item items ih => simp [isUnambiguousItems, ih]

theorem isUnambiguous_list_of_no_rests {items : List Value}
    (noRests : ∀ item ∈ items, item.restOf? = none)
    : (list items).isUnambiguous ↔ ∀ item ∈ items, item.isUnambiguous := by
  have none : items.filterMap restOf? = [] := List.filterMap_eq_nil_iff.mpr noRests
  simp [isUnambiguous, none, isUnambiguousItems_iff]

/-- After its first rest an unambiguous list has no other one. -/
theorem isUnambiguous_list_split {head tail : List Value} {s : String}
    (noRests : ∀ item ∈ head, item.restOf? = none) (isRest : Variable.isRest s)
    : (list (head ++ string s :: tail)).isUnambiguous
      ↔ (∀ item ∈ tail, item.restOf? = none) ∧ ∀ item ∈ head ++ tail, item.isUnambiguous := by
  have none : head.filterMap restOf? = [] := List.filterMap_eq_nil_iff.mpr noRests
  have single : (list (head ++ string s :: tail)).isUnambiguous
      ↔ tail.filterMap restOf? = [] ∧ ∀ u ∈ head ++ string s :: tail, u.isUnambiguous := by
    simp [isUnambiguous, none, restOf?_string isRest, isUnambiguousItems_iff]
  have text : (string s).isUnambiguous := rfl
  simp [single, List.filterMap_eq_nil_iff, text, or_imp, forall_and]

theorem isUnambiguousFields_iff {bound : Option String} {r : Fields bound}
    : isUnambiguousFields r ↔ ∀ entry ∈ r.toList, entry.2.isUnambiguous := by
  induction r with
  | nil => simp [isUnambiguousFields, Fields.toList]
  | cons key above value rest ih => simp [isUnambiguousFields, Fields.toList, ih]

/-- Items have no rest among them, or a first one. -/
theorem no_rests_or_exists_first (items : List Value)
    : (∀ item ∈ items, item.restOf? = none)
      ∨ ∃ head s tail, items = head ++ string s :: tail
        ∧ (∀ item ∈ head, item.restOf? = none) ∧ Variable.isRest s := by
  induction items with
  | nil => exact .inl nofun
  | cons item items ih =>
    cases asks : item.restOf? with
    | some occurrence =>
      obtain ⟨s, isRest, rfl, -⟩ := exists_of_restOf? asks
      exact .inr ⟨[], s, items, rfl, nofun, isRest⟩
    | none =>
      rcases ih with noRests | ⟨head, s, tail, rfl, noRests, isRest⟩
      · exact .inl (List.forall_mem_cons.mpr ⟨asks, noRests⟩)
      · exact .inr ⟨item :: head, s, tail, rfl, List.forall_mem_cons.mpr ⟨asks, noRests⟩, isRest⟩

end Value

namespace Pattern

/-- Variables match, one after the other, what is left for each of them. -/
def OccurrencesPass : List Occurrence → Bindings → Bindings → Prop
  | [], b, b' => b' = b
  | occurrence :: more, b, b' =>
    ∃ c, (var occurrence.name).match? occurrence.text b = some ⟨true, c⟩ ∧ OccurrencesPass more c b'

theorem occurrencesPass_append {first later : List Occurrence} {b b' : Bindings}
    : OccurrencesPass (first ++ later) b b'
      ↔ ∃ c, OccurrencesPass first b c ∧ OccurrencesPass later c b' := by
  induction first generalizing b with
  | nil => simp [OccurrencesPass]
  | cons occurrence first ih =>
    simp only [List.cons_append, OccurrencesPass, ih]
    constructor
    · rintro ⟨d, here, c, there, last⟩
      exact ⟨c, ⟨d, here, there⟩, last⟩
    · rintro ⟨c, ⟨d, here, there⟩, last⟩
      exact ⟨d, here, c, there, last⟩

theorem occurrencesPass_singleton {occurrence : Occurrence} {b b' : Bindings}
    : OccurrencesPass [occurrence] b b'
      ↔ Outcome (var occurrence.name) occurrence.text b ⟨true, b'⟩ := by
  simp [OccurrencesPass, match?_eq_some_iff]

-- --------------------------------------------------------------------------------------
-- Items as patterns
-- --------------------------------------------------------------------------------------

theorem ofItems_cons_rest {s : String} (isRest : Variable.isRest s) (more : List Value)
    : ofItems (.string s :: more) = rest (Variable.ofName s) :: ofItems more := by
  simp [ofItems, isRest, restNamed]

theorem ofItems_cons {item : Value} (noRest : item.restOf? = none) (more : List Value)
    : ofItems (item :: more) = ofValue item :: ofItems more := by
  cases item with
  | string s =>
    have notRest : Variable.isRest s = false := by simpa [Value.restOf?] using noRest
    simp [ofItems, ofValue, notRest]
  | _ => rfl

/-- Items without a rest among them are read one by one, by induction on them. -/
theorem ofItems_append {items : List Value} (noRests : ∀ item ∈ items, item.restOf? = none)
    (more : List Value)
    : ofItems (items ++ more) = items.map ofValue ++ ofItems more := by
  induction items with
  | nil => rfl
  | cons item items ih =>
    obtain ⟨here, others⟩ := List.forall_mem_cons.mp noRests
    rw [List.cons_append, ofItems_cons here, ih others, List.map_cons, List.cons_append]

theorem any_isRest_ofItems (items : List Value)
    : (ofItems items).any isRest = items.any (·.restOf?.isSome) := by
  induction items with
  | nil => rfl
  | cons item items ih =>
    cases asks : item.restOf? with
    | some occurrence =>
      obtain ⟨s, isRest, rfl, -⟩ := Value.exists_of_restOf? asks
      simp [ofItems_cons_rest isRest, asks, Pattern.isRest]
    | none => simp [ofItems_cons asks, asks, isRest_ofValue, ih]

/-- A list is split at its first rest, if it has no other one. -/
theorem sequence_ofItems {head tail : List Value} {s : String}
    (noRests : ∀ item ∈ head, item.restOf? = none) (isRest : Variable.isRest s)
    : sequence (ofItems (head ++ .string s :: tail))
      = if (ofItems tail).any Pattern.isRest then .ambiguous
        else .split (head.map ofValue) (Variable.ofName s) (ofItems tail) := by
  have noRest : ∀ p ∈ head.map ofValue, (!p.isRest) = true := by
    simpa using fun u _ => isRest_ofValue u
  have first : (rest (Variable.ofName s)).isRest = true := rfl
  rw [ofItems_append noRests, ofItems_cons_rest isRest]
  simp [sequence, List.dropWhile_append_of_pos noRest, List.takeWhile_append_of_pos noRest, first]

-- --------------------------------------------------------------------------------------
-- Data against the same data
-- --------------------------------------------------------------------------------------

/-- What is related to two lists in a row is two lists in a row. -/
theorem forall₂_append_left {α β : Type} {R : α → β → Prop} {as as' : List α} {bs : List β}
    (related : List.Forall₂ R (as ++ as') bs)
    : ∃ cs cs', bs = cs ++ cs' ∧ List.Forall₂ R as cs ∧ List.Forall₂ R as' cs' :=
  ⟨_, _, (List.take_append_drop as.length bs).symm,
    (List.forall₂_take_append bs as as' related.flip).flip,
    (List.forall₂_drop_append bs as as' related.flip).flip⟩

/-- A value that is read as a pattern matches the same values exactly if it is unambiguous and what
it names matches one after the other.
-/
def ReadsBack (u : Value) : Prop :=
  ∀ w, u.same w → ∀ b b', Outcome (ofValue u) w b ⟨true, b'⟩
    ↔ u.isUnambiguous ∧ OccurrencesPass u.occurrences b b'

/-- By induction on the items, which are the same one by one. -/
theorem itemsPass_ofValue {us ws : List Value} (each : ∀ u ∈ us, ReadsBack u)
    (same : List.Forall₂ (fun u w => u.same w) us ws) (b b' : Bindings)
    : ItemsPass (us.map ofValue) ws b b'
      ↔ (∀ u ∈ us, u.isUnambiguous) ∧ OccurrencesPass (us.flatMap Value.occurrences) b b' := by
  induction same generalizing b with
  | nil => simp [itemsPass_nil, OccurrencesPass]
  | @cons u w us ws here _ ih =>
    have others := ih fun u member => each u (List.mem_cons_of_mem _ member)
    rw [List.map_cons, itemsPass_cons, List.forall_mem_cons, List.flatMap_cons,
      occurrencesPass_append]
    simp only [each u List.mem_cons_self w here, others, ← exists_and_left]
    exact exists_congr fun c => and_and_and_comm

/-- By induction on the entries, whose values the other record has too. -/
theorem fieldsOutcome_same {entries : List (String × Value)} {held : Record}
    (each : ∀ entry ∈ entries, ReadsBack entry.2)
    (same : ∀ entry ∈ entries, ∃ w, held.get? entry.1 = some w ∧ entry.2.same w) (b b' : Bindings)
    : FieldsOutcome (entries.map fun entry => (entry.1, ofValue entry.2)) held b ⟨true, b'⟩
      ↔ (∀ entry ∈ entries, entry.2.isUnambiguous)
        ∧ OccurrencesPass (entries.flatMap (·.2.occurrences)) b b' := by
  induction entries generalizing b with
  | nil => simp [fieldsOutcome_nil, OccurrencesPass]
  | cons entry entries ih =>
    obtain ⟨⟨w, found, here⟩, there⟩ := List.forall_mem_cons.mp same
    have others := ih (fun entry member => each entry (List.mem_cons_of_mem _ member)) there
    rw [List.map_cons, fieldsOutcome_cons_matched found, List.forall_mem_cons, List.flatMap_cons,
      occurrencesPass_append]
    simp only [each entry List.mem_cons_self w here, others, ← exists_and_left]
    exact exists_congr fun c => and_and_and_comm

/-- Where a rest splits a list, what stands before it and after it matches item by item, and what is
left for the rest is the text that names it.
-/
theorem outcome_seq_ofItems {head tail hs ts : List Value} {s : String}
    (each : ∀ u ∈ head ++ .string s :: tail, ReadsBack u)
    (noRests : ∀ u ∈ head, u.restOf? = none) (isRest : Variable.isRest s)
    (noMore : ∀ u ∈ tail, u.restOf? = none)
    (sameHead : List.Forall₂ (fun u w => u.same w) head hs)
    (sameTail : List.Forall₂ (fun u w => u.same w) tail ts) (b b' : Bindings)
    : Outcome (seq (ofItems (head ++ .string s :: tail))) (.list (hs ++ .string s :: ts)) b
        ⟨true, b'⟩
      ↔ (∀ u ∈ head ++ tail, u.isUnambiguous)
        ∧ OccurrencesPass (Value.occurrencesItems (head ++ .string s :: tail)) b b' := by
  have readTail : ofItems tail = tail.map ofValue := by
    simpa [ofItems] using ofItems_append noMore []
  have parts : sequence (ofItems (head ++ .string s :: tail))
      = .split (head.map ofValue) (Variable.ofName s) (tail.map ofValue) := by
    have single : (ofItems tail).any Pattern.isRest = false := by
      rw [any_isRest_ofItems]
      simpa using noMore
    rw [sequence_ofItems noRests isRest, single, readTail]
    rfl
  have stop : (hs ++ .string s :: ts).length - (tail.map ofValue).length = hs.length + 1 := by
    simp [sameTail.length_eq]
    omega
  have middle : middleOf (hs ++ .string s :: ts) (head.map ofValue) (tail.map ofValue)
      = .list [.string s] := by
    rw [middleOf, stop]
    simp [Value.slice, sameHead.length_eq, List.take_append]
  have last : (hs ++ .string s :: ts).drop (hs.length + 1) = ts := by
    simp [List.drop_append]
  have fits : (head.map ofValue).length + (tail.map ofValue).length
      ≤ (hs ++ .string s :: ts).length := by
    simp [sameHead.length_eq, sameTail.length_eq]
  have eachHead : ∀ u ∈ head, ReadsBack u := fun u member => each u (by simp [member])
  have eachTail : ∀ u ∈ tail, ReadsBack u := fun u member => each u (by simp [member])
  have named : Value.occurrencesItems (head ++ .string s :: tail)
      = head.flatMap Value.occurrences
        ++ ([.rest s isRest] ++ tail.flatMap Value.occurrences) := by
    rw [Value.occurrencesItems_append, Value.occurrencesItems_of_no_rests noRests,
      Value.occurrencesItems, Value.occurrencesItems_of_no_rests noMore,
      Value.restOf?_string isRest]
  -- The head of the pattern looks at as many values as it has items.
  have first (c : Bindings) : ItemsPass (head.map ofValue) (hs ++ .string s :: ts) b c
      ↔ ItemsPass (head.map ofValue) hs b c := by
    have passes : ItemsPass (head.map ofValue ++ []) (hs ++ .string s :: ts) b c ↔ _ :=
      itemsPass_append (by simp [sameHead.length_eq])
    simpa [itemsPass_nil] using passes
  rw [outcome_seq_split parts fits, middle, stop, last, named, List.forall_mem_append]
  simp only [first, itemsPass_ofValue eachHead sameHead, itemsPass_ofValue eachTail sameTail,
    occurrencesPass_append, occurrencesPass_singleton]
  constructor
  · rintro ⟨c, d, ⟨first, passed⟩, here, rest, passed'⟩
    exact ⟨⟨first, rest⟩, c, passed, d, here, passed'⟩
  · rintro ⟨⟨first, rest⟩, c, passed, d, here, passed'⟩
    exact ⟨c, d, ⟨first, passed⟩, here, rest, passed'⟩

theorem readsBack_list {us : List Value} (each : ∀ u ∈ us, ReadsBack u) : ReadsBack (.list us) := by
  intro w same b b'
  obtain ⟨ws, rfl⟩ : ∃ ws, w = .list ws := by cases w <;> simp_all [Value.same]
  rw [Value.same] at same
  have same := Value.sameItems_iff.mp same
  rw [ofValue, Value.occurrences]
  rcases Value.no_rests_or_exists_first us with noRests | ⟨head, s, tail, rfl, noRests, isRest⟩
  · have noPatterns : ∀ p ∈ us.map ofValue, p.isRest = false := by
      simpa using fun u _ => isRest_ofValue u
    have read : ofItems us = us.map ofValue := by
      simpa [ofItems] using ofItems_append noRests []
    rw [read, outcome_seq_plain noPatterns (by simp [same.length_eq]), itemsOutcome_matched_iff,
      itemsPass_ofValue each same, Value.isUnambiguous_list_of_no_rests noRests,
      Value.occurrencesItems_of_no_rests noRests]
  · obtain ⟨hs, _, rfl, sameHead, sameRest⟩ := forall₂_append_left same
    rw [Value.isUnambiguous_list_split noRests isRest]
    by_cases noMore : ∀ u ∈ tail, u.restOf? = none
    · cases sameRest with
      | @cons _ w _ _ here sameTail =>
        obtain rfl := Value.string_same_iff.mp here
        rw [outcome_seq_ofItems each noRests isRest noMore sameHead sameTail, and_iff_right noMore]
    · have more : (ofItems tail).any Pattern.isRest = true := by
        rw [any_isRest_ofItems]
        simpa [Option.isSome_iff_ne_none] using noMore
      have ambiguous : sequence (ofItems (head ++ .string s :: tail)) = .ambiguous := by
        simp [sequence_ofItems noRests isRest, more]
      simp [outcome_seq_ambiguous ambiguous, noMore]

/-- What a value that is read as a pattern asks of the same values, by induction on it. -/
theorem readsBack (u : Value) : ReadsBack u := by
  induction u using Value.induction with
  | undefined | null | bool | number | date | fact =>
    intro w same b b'
    simp [ofValue, same, Value.isUnambiguous, Value.occurrences, OccurrencesPass]
  | string s =>
    intro w same b b'
    obtain rfl := Value.string_same_iff.mp same
    simp only [ofValue, ofText, Value.isUnambiguous, Value.occurrences, true_and]
    by_cases isWildcard : s = wildcardText
    · have notVariable : Variable.isVariable wildcardText = false := by decide +kernel
      simp [isWildcard, notVariable, OccurrencesPass]
    · by_cases isVariable : Variable.isVariable s
      · simp [isWildcard, isVariable, occurrencesPass_singleton, Occurrence.name, Occurrence.text]
      · simp [isWildcard, isVariable, OccurrencesPass, Value.same]
  | list us ih => exact readsBack_list ih
  | map fields ih =>
    intro w same b b'
    obtain ⟨held, rfl⟩ : ∃ held, w = .map held := by cases w <;> simp_all [Value.same]
    rw [Value.same] at same
    have each : ∀ entry ∈ fields.toList, ReadsBack entry.2 :=
      fun entry member => ih entry.2 (Value.mem_values_of_mem_toList member)
    have has : ∀ entry ∈ fields.toList, ∃ w, held.get? entry.1 = some w ∧ entry.2.same w :=
      fun entry member => Value.exists_same_of_get? same ((Fields.mem_toList_iff fields).mp member)
    rw [ofValue, ofFields_eq_map, outcome_record rfl, fieldsOutcome_same each has,
      Value.isUnambiguous, Value.isUnambiguousFields_iff, Value.occurrences,
      Value.occurrencesFields_eq_flatMap]

end Pattern

end RuleEngine
