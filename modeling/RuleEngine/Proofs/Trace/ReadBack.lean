import Mathlib.Data.List.Forall2
import RuleEngine.Proofs.Json.ReadBack
import RuleEngine.Proofs.Number.Rounding
import RuleEngine.Trace.Record
import RuleEngine.Value.Lemmas

/-! Trace records read back. The JSON text of a record is one object, from which its parts are read
under their keys as they were. The keys are distinct unless the event is about a definition: such an
event has an identity of its own, which is written under the key of the identity of the record.
-/

namespace RuleEngine

-- --------------------------------------------------------------------------------------
-- Distinct keys
-- --------------------------------------------------------------------------------------

namespace Reading

mutual

/-- No object in a reading has two members under one key. -/
def Unambiguous : Reading → Prop
  | array items => AllUnambiguous items
  | object members => (members.map (·.1)).Nodup ∧ HasUnambiguous members
  | null | bool _ | number .. | string _ => True

def AllUnambiguous : List Reading → Prop
  | [] => True
  | item :: items => item.Unambiguous ∧ AllUnambiguous items

def HasUnambiguous : List (String × Reading) → Prop
  | [] => True
  | (_, value) :: members => value.Unambiguous ∧ HasUnambiguous members

end

/-- The values under a key of an object, in order. -/
def valuesOf (key : String) (members : List (String × Reading)) : List Reading :=
  (members.filter (·.1 == key)).map (·.2)

theorem allUnambiguous_iff {items : List Reading}
    : AllUnambiguous items ↔ ∀ r ∈ items, r.Unambiguous := by
  induction items with
  | nil => simp [AllUnambiguous]
  | cons item items ih => simp [AllUnambiguous, ih]

theorem hasUnambiguous_iff {members : List (String × Reading)}
    : HasUnambiguous members ↔ ∀ m ∈ members, m.2.Unambiguous := by
  induction members with
  | nil => simp [HasUnambiguous]
  | cons member members ih => simp [HasUnambiguous, ih]

end Reading

namespace Json

theorem keys_readingMembers (members : List (String × Json))
    : (readingMembers members).map (·.1) = members.map (·.1) := by
  simp [readingMembers_eq_map, Function.comp_def]

/-- A document can be written, and its objects can be read by key. -/
structure IsSound (j : Json) : Prop where
  finite : j.IsFinite
  unambiguous : j.reading.Unambiguous

namespace IsSound

variable {items : List Json} {members : List (String × Json)}

theorem array (sound : ∀ j ∈ items, j.IsSound) : (Json.array items).IsSound where
  finite := areFinite_iff.mpr fun j member => (sound j member).finite
  unambiguous := by
    rw [reading, readingItems_eq_map, Reading.Unambiguous, Reading.allUnambiguous_iff]
    intro r member
    obtain ⟨j, here, rfl⟩ := List.mem_map.mp member
    exact (sound j here).unambiguous

theorem hasUnambiguous (sound : ∀ m ∈ members, m.2.IsSound)
    : Reading.HasUnambiguous (readingMembers members) := by
  rw [readingMembers_eq_map, Reading.hasUnambiguous_iff]
  intro m member
  obtain ⟨part, here, rfl⟩ := List.mem_map.mp member
  exact (sound part here).unambiguous

theorem object (distinct : (members.map (·.1)).Nodup) (sound : ∀ m ∈ members, m.2.IsSound)
    : (Json.object members).IsSound where
  finite := hasFinite_iff.mpr fun m member => (sound m member).finite
  unambiguous := ⟨(keys_readingMembers members).symm ▸ distinct, hasUnambiguous sound⟩

theorem null : Json.null.IsSound := ⟨trivial, trivial⟩

theorem bool (b : Bool) : (Json.bool b).IsSound := ⟨trivial, trivial⟩

theorem nat (n : Nat) : (Json.nat n).IsSound := ⟨trivial, trivial⟩

theorem string (s : String) : (Json.string s).IsSound := ⟨trivial, trivial⟩

end IsSound

end Json

-- --------------------------------------------------------------------------------------
-- What tells a value
-- --------------------------------------------------------------------------------------

/-- A number is read from a decimal that rounds to it and to no other number of its sign. -/
def Number.ToldAs (n : Number) (r : Reading) : Prop :=
  if n.isFinite then
    ∃ d, r = .number n.isNegative d ∧ n.RoundsFrom d
      ∧ ∀ n' : Number, n'.isNegative = n.isNegative → n'.RoundsFrom d → n' = n
  else r = .string n.plain

/-- A fact is told by its kind and its identity. -/
def Fact.told (f : Fact) : Reading :=
  .object [("kind", .string f.kind), ("id", .natural f.id.number)]

/-- A failure is told by its name and its message. -/
def Failure.told (f : Failure) : Reading :=
  .object [("kind", .string f.name), ("message", .string f.message)]

namespace Value

mutual

/-- A reading tells a value. Undefined is told like null, and a fact by what names it. -/
def ToldAs : Value → Reading → Prop
  | undefined, r => r = .null
  | null, r => r = .null
  | bool b, r => r = .bool b
  | number n, r => n.ToldAs r
  | string s, r => r = .string s
  | date i, r => r = .string (i.text .millis)
  | list items, r => ∃ readings, r = .array readings ∧ ItemsToldAs items readings
  | map fields, r => ∃ members, r = .object members ∧ FieldsToldAs fields members
  | fact f, r => r = f.told

/-- The items of a list, in order. -/
def ItemsToldAs : List Value → List Reading → Prop
  | [], readings => readings = []
  | item :: items, readings =>
    ∃ r more, readings = r :: more ∧ item.ToldAs r ∧ ItemsToldAs items more

/-- The entries of a record under their keys, in order. -/
def FieldsToldAs {bound : Option String} : Fields bound → List (String × Reading) → Prop
  | .nil, members => members = []
  | .cons key _ value rest, members =>
    ∃ r more, members = (key, r) :: more ∧ value.ToldAs r ∧ FieldsToldAs rest more

end

theorem tracedItems_eq_map (items : List Value) : tracedItems items = items.map traced := by
  induction items with
  | nil => rfl
  | cons item items ih => simp [tracedItems, ih]

theorem tracedFields_eq_map {bound : Option String} (r : Fields bound)
    : tracedFields r = r.toList.map fun entry => (entry.1, entry.2.traced) := by
  induction r with
  | nil => rfl
  | cons key above value rest ih => simp [tracedFields, Fields.toList, ih]

theorem number_toldAs (n : Number) : n.ToldAs (number n).traced.reading := by
  cases finite : n.isFinite with
  | true =>
    have rounds := n.roundsFrom_spelled
    simp only [Number.ToldAs, traced, finite, if_true, Json.reading]
    exact ⟨_, rfl, rounds, fun n' sign rounds' => Number.eq_of_roundsFrom sign rounds' rounds⟩
  | false => simp [Number.ToldAs, traced, finite, Json.reading]

mutual

/-- A document tells the value that it was made of, by recursion on the value. -/
theorem toldAs_traced : ∀ v : Value, v.ToldAs v.traced.reading
  | undefined => rfl
  | null => rfl
  | bool _ => rfl
  | number n => number_toldAs n
  | string _ => rfl
  | date _ => rfl
  | list items => ⟨_, rfl, itemsToldAs_traced items⟩
  | map fields => ⟨_, rfl, fieldsToldAs_traced fields⟩
  | fact _ => rfl

theorem itemsToldAs_traced : ∀ items : List Value,
    ItemsToldAs items (Json.readingItems (tracedItems items))
  | [] => rfl
  | item :: items => ⟨_, _, rfl, toldAs_traced item, itemsToldAs_traced items⟩

theorem fieldsToldAs_traced : ∀ {bound : Option String} (r : Fields bound),
    FieldsToldAs r (Json.readingMembers (tracedFields r))
  | _, .nil => rfl
  | _, .cons _ _ value rest => ⟨_, _, rfl, toldAs_traced value, fieldsToldAs_traced rest⟩

end

theorem mem_tracedFields {bound : Option String} {r : Fields bound} {m : String × Json}
    (member : m ∈ tracedFields r)
    : ∃ v ∈ r.values, m.2 = v.traced := by
  rw [tracedFields_eq_map] at member
  obtain ⟨entry, here, rfl⟩ := List.mem_map.mp member
  exact ⟨entry.2, List.mem_map_of_mem here, rfl⟩

theorem nodup_keys_tracedFields {bound : Option String} (r : Fields bound)
    : ((tracedFields r).map (·.1)).Nodup := by
  have keys : (tracedFields r).map (·.1) = r.keys := by
    simp [tracedFields_eq_map, Fields.keys, Function.comp_def]
  rw [keys]
  exact r.pairwise_keys.imp String.ne_of_lt

/-- The document of a value can be written and read, by induction on the value. -/
theorem traced_isSound (v : Value) : v.traced.IsSound := by
  induction v using induction with
  | undefined | null => exact .null
  | bool b => exact .bool b
  | string s => exact .string s
  | date i => exact .string _
  | number n =>
    unfold traced
    split
    · rename_i finite
      exact ⟨finite, trivial⟩
    · exact .string _
  | list items ih =>
    rw [traced, tracedItems_eq_map]
    refine .array fun j member => ?_
    obtain ⟨v, here, rfl⟩ := List.mem_map.mp member
    exact ih v here
  | map fields ih =>
    refine .object (nodup_keys_tracedFields fields) fun m member => ?_
    obtain ⟨v, here, same⟩ := mem_tracedFields member
    exact same ▸ ih v here
  | fact f =>
    refine .object (by simp) fun m member => ?_
    simp only [List.mem_cons, List.not_mem_nil, or_false] at member
    rcases member with rfl | rfl
    · exact .string _
    · exact .nat _

end Value

theorem Fields.traced_isSound (r : Record) : r.traced.IsSound := (Value.map r).traced_isSound

theorem Failure.traced_isSound (f : Failure) : f.traced.IsSound := by
  refine .object (by simp) fun m member => ?_
  simp only [List.mem_cons, List.not_mem_nil, or_false] at member
  rcases member with rfl | rfl <;> exact .string _

-- --------------------------------------------------------------------------------------
-- What tells an event
-- --------------------------------------------------------------------------------------

namespace Event

/-- The identity of the definition that an event says was added or removed. -/
def definitionId? : Event → Option String
  | definitionAdded id _ _ | definitionRemoved id _ => some id
  | _ => none

/-- An event is told under the keys of its parts. What may be absent is told exactly if it is there.
The identity of a definition is left out here, since its key is that of the record.
-/
def ToldBy (get : String → Option Reading) : Event → Prop
  | definitionAdded _ kind replaced =>
    get "definition" = some (.string kind.text) ∧ get "replaced" = some (.bool replaced)
  | definitionRemoved _ kind => get "definition" = some (.string kind.text)
  | factAsserted fact logical producedBy =>
    get "fact" = some fact.told ∧ get "logical" = some (.bool logical)
      ∧ get "produced_by" = producedBy.map fun id => .natural id.number
  | factRetracted fact => get "fact" = some fact.told
  | schemaError failure => get "error" = some failure.told
  | activationsFound trigger count =>
    get "trigger" = some (.natural trigger.number) ∧ get "count" = some (.natural count)
  | activationSelected rule bindings =>
    get "rule" = some (.string rule)
      ∧ ∃ members, get "bindings" = some (.object members) ∧ Value.FieldsToldAs bindings members
  | preConditionPassed rule => get "rule" = some (.string rule)
  | preConditionFailed rule failure =>
    get "rule" = some (.string rule) ∧ get "error" = failure.map (·.told)
  | guardError definition guard failure =>
    get "source" = some (.string definition) ∧ get "guard" = some (.string guard)
      ∧ get "error" = some failure.told
  | activationFired activation rule failed =>
    get "activation" = some (.natural activation.number) ∧ get "rule" = some (.string rule)
      ∧ get "failed" = some (.bool failed)
  | actionErrorHandled rule failure =>
    get "rule" = some (.string rule) ∧ get "error" = some failure.told
  | postConditionFailed rule index =>
    get "rule" = some (.string rule) ∧ get "index" = some (.natural index)
  | hookError rule hook failure =>
    get "rule" = some (.string rule) ∧ get "hook" = some (.string hook)
      ∧ get "error" = some failure.told
  | engineError definition failure =>
    get "source" = definition.map .string ∧ get "error" = some failure.told
  | projectionError query field failure =>
    get "query" = some (.string query) ∧ get "field" = some (.string field)
      ∧ get "error" = some failure.told
  | queryStarted query => get "query" = some (.string query)
  | queryCompleted query rows =>
    get "query" = some (.string query) ∧ get "rows" = some (.natural rows)
  | activationInvalidated activation rule cause =>
    get "activation" = some (.natural activation.number) ∧ get "rule" = some (.string rule)
      ∧ get "cause" = some (.natural cause.number)
  | logicalRetracted fact activation =>
    get "fact" = some (.natural fact.number)
      ∧ get "activation" = some (.natural activation.number)

/-- Every part of an event can be written and read. -/
theorem members_isSound (e : Event) : ∀ m ∈ e.members, m.2.IsSound := by
  have optional (key : String) (value : Option Json) (sound : ∀ j ∈ value, j.IsSound)
      : ∀ m ∈ optionalMember key value, m.2.IsSound := by
    cases value with
    | none => simp [optionalMember]
    | some j => simpa [optionalMember] using sound
  cases e
  all_goals
    simp only [members, List.forall_mem_cons, List.forall_mem_append, List.not_mem_nil,
      false_imp_iff, implies_true, and_true, true_and, Json.IsSound.string, Json.IsSound.nat,
      Json.IsSound.bool, Value.traced_isSound, Failure.traced_isSound, Fields.traced_isSound]
  all_goals
    refine optional _ _ fun j member => ?_
    obtain ⟨part, -, rfl⟩ := Option.map_eq_some_iff.mp member
  · exact .nat _
  · exact part.traced_isSound
  · exact .string _

end Event

-- --------------------------------------------------------------------------------------
-- Records
-- --------------------------------------------------------------------------------------

namespace TraceRecord

/-- The members of a record before those of its event. -/
def header (r : TraceRecord) : List (String × Json) :=
  [("id", .nat r.id), ("sequence", .nat r.sequence), ("timestamp_ns", .nat r.timestamp),
    ("type", .string r.name), ("is_error", .bool r.isError)]

theorem document_eq (r : TraceRecord) : r.document = .object (r.header ++ r.event.members) := rfl

/-- Every part of a record can be written and read. -/
theorem members_isSound (r : TraceRecord) : ∀ m ∈ r.header ++ r.event.members, m.2.IsSound := by
  intro m member
  rcases List.mem_append.mp member with head | part
  · simp only [header, List.mem_cons, List.not_mem_nil, or_false] at head
    rcases head with rfl | rfl | rfl | rfl | rfl
    · exact .nat _
    · exact .nat _
    · exact .nat _
    · exact .string _
    · exact .bool _
  · exact r.event.members_isSound m part

/-- The members that are read from the text of a record. -/
def read (r : TraceRecord) : List (String × Reading) :=
  (r.header ++ r.event.members).map fun m => (m.1, m.2.reading)

theorem spells_json (r : TraceRecord) : Reading.Spells r.json.toList (.object r.read) := by
  have finite : r.document.IsFinite :=
    Json.hasFinite_iff.mpr fun m member => (r.members_isSound m member).finite
  have spells := Json.spells_text finite
  rwa [document_eq, Json.reading, Json.readingMembers_eq_map] at spells

/-- The keys are distinct exactly if the event is not about a definition, by cases on the event. -/
theorem nodup_keys_iff (r : TraceRecord)
    : ((r.header ++ r.event.members).map (·.1)).Nodup ↔ r.event.definitionId? = none := by
  obtain ⟨id, sequence, timestamp, event⟩ := r
  cases event with
  | factAsserted _ _ producedBy =>
    cases producedBy <;>
      simp [header, Event.members, Event.optionalMember, Event.definitionId?]
  | preConditionFailed _ failure =>
    cases failure <;> simp [header, Event.members, Event.optionalMember, Event.definitionId?]
  | engineError definition _ =>
    cases definition <;> simp [header, Event.members, Event.optionalMember, Event.definitionId?]
  | _ => simp [header, Event.members, Event.definitionId?]

theorem read_unambiguous_iff (r : TraceRecord)
    : (Reading.object r.read).Unambiguous ↔ r.event.definitionId? = none := by
  have parts := Json.IsSound.hasUnambiguous r.members_isSound
  rw [Json.readingMembers_eq_map] at parts
  have keys : r.read.map (·.1) = (r.header ++ r.event.members).map (·.1) := by
    simp [read, Function.comp_def]
  exact (and_iff_left parts).trans (keys ▸ r.nodup_keys_iff)

/-- Under the key of identities the identity of the record comes first, and that of a definition
after it.
-/
theorem valuesOf_id_read (r : TraceRecord)
    : Reading.valuesOf "id" r.read
      = .natural r.id :: (r.event.definitionId?.map .string).toList := by
  obtain ⟨id, sequence, timestamp, event⟩ := r
  cases event with
  | factAsserted _ _ producedBy => cases producedBy <;> rfl
  | preConditionFailed _ failure => cases failure <;> rfl
  | engineError definition _ => cases definition <;> rfl
  | _ => rfl

theorem lookup_read (r : TraceRecord)
    : r.read.lookup "id" = some (.natural r.id)
      ∧ r.read.lookup "sequence" = some (.natural r.sequence)
      ∧ r.read.lookup "timestamp_ns" = some (.natural r.timestamp)
      ∧ r.read.lookup "type" = some (.string r.event.name)
      ∧ r.read.lookup "is_error" = some (.bool r.event.isError) :=
  ⟨rfl, rfl, rfl, rfl, rfl⟩

/-- Every part of an event is read under its key, by cases on the event. -/
theorem event_toldBy_read (r : TraceRecord) : r.event.ToldBy (r.read.lookup ·) := by
  obtain ⟨id, sequence, timestamp, event⟩ := r
  cases event with
  | factAsserted _ _ producedBy => cases producedBy <;> exact ⟨rfl, rfl, rfl⟩
  | preConditionFailed _ failure => cases failure <;> exact ⟨rfl, rfl⟩
  | engineError definition _ => cases definition <;> exact ⟨rfl, rfl⟩
  | activationSelected rule bindings => exact ⟨rfl, _, rfl, Value.fieldsToldAs_traced bindings⟩
  | definitionRemoved | factRetracted | schemaError | preConditionPassed | queryStarted => rfl
  | guardError | activationFired | hookError | projectionError | activationInvalidated =>
    exact ⟨rfl, rfl, rfl⟩
  | _ => exact ⟨rfl, rfl⟩

/-- Records spell an array one after the other, with or without line breaks between them. -/
theorem spells_jsonArray (pretty : Bool) (rs : List TraceRecord)
    : Reading.Spells (jsonArray pretty rs).toList (.array (rs.map (.object ·.read))) := by
  have parts : List.Forall₂ Reading.Spells (rs.map (·.json.toList)) (rs.map (.object ·.read)) := by
    rw [List.forall₂_map_left_iff, List.forall₂_map_right_iff, List.forall₂_same]
    exact fun r _ => r.spells_json
  cases pretty with
  | false => simpa [jsonArray, Function.comp_def] using Reading.Spells.array_compact parts
  | true =>
    have newline : ∀ c ∈ ['\n'], Reading.isSpace c := by simp [Reading.isSpace]
    have indent : ∀ c ∈ ['\n', ' ', ' '], Reading.isSpace c := by simp [Reading.isSpace]
    simpa [jsonArray, Function.comp_def]
      using Reading.Spells.array_joined indent newline indent parts

/-- The text of a record is one JSON object. Its keys and those of all objects in it are distinct
exactly if the event is not about a definition; the identity of a definition is written under the
key of the identity of the record, behind it. Everything else is read back under its key, with
every text as it was and every number from digits that round to no other. The text of several
records is an array of just these objects in their order, pretty or not.
-/
theorem json_readsBack (r : TraceRecord) (pretty : Bool) (rs : List TraceRecord)
    : (∃ members, Reading.parse? r.json = some (.object members)
        ∧ ((Reading.object members).Unambiguous ↔ r.event.definitionId? = none)
        ∧ Reading.valuesOf "id" members
          = .natural r.id :: (r.event.definitionId?.map .string).toList
        ∧ members.lookup "id" = some (.natural r.id)
        ∧ members.lookup "sequence" = some (.natural r.sequence)
        ∧ members.lookup "timestamp_ns" = some (.natural r.timestamp)
        ∧ members.lookup "type" = some (.string r.event.name)
        ∧ members.lookup "is_error" = some (.bool r.event.isError)
        ∧ r.event.ToldBy (members.lookup ·))
      ∧ ∃ items, Reading.parse? (jsonArray pretty rs) = some (.array items)
        ∧ rs.map (fun r' => Reading.parse? r'.json) = items.map some := by
  have alone (r' : TraceRecord) : Reading.parse? r'.json = some (.object r'.read) :=
    Reading.parse?_of_spells r'.spells_json
  refine ⟨⟨r.read, alone r, r.read_unambiguous_iff, r.valuesOf_id_read, ?_⟩, ?_⟩
  · obtain ⟨id, sequence, timestamp, name, error⟩ := r.lookup_read
    exact ⟨id, sequence, timestamp, name, error, r.event_toldBy_read⟩
  · refine ⟨_, Reading.parse?_of_spells (spells_jsonArray pretty rs), ?_⟩
    simp [alone, Function.comp_def]

/-- The record of a rule that was added. -/
def ofDiscount : TraceRecord := ⟨7, 12, 0, .definitionAdded "discount" .rule false⟩

/-- It has two members under the key of its identity. -/
theorem ofDiscount_keys_repeat
    : ∃ members, Reading.parse? ofDiscount.json = some (.object members)
        ∧ members.map (·.1)
          = ["id", "sequence", "timestamp_ns", "type", "is_error", "id", "definition", "replaced"]
        ∧ ¬(members.map (·.1)).Nodup :=
  ⟨ofDiscount.read, Reading.parse?_of_spells ofDiscount.spells_json, rfl, by decide⟩

end TraceRecord

end RuleEngine
