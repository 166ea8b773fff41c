import RuleEngine.Proofs.Trace.ReadBack

/-! Values as JSON texts. By the grammar the text of a value denotes one thing, in which the value
is told down to its least parts. What a list or a record denotes is made up of what the texts of its
parts denote.
-/

namespace RuleEngine

open Reading (Denotes)

namespace Value

theorem denotes_iff (v : Value) {r : Reading} : Denotes v.traced.text r ↔ r = v.traced.reading :=
  Json.denotes_text_iff v.traced_isSound.finite

theorem denotes_reading (v : Value) : Denotes v.traced.text v.traced.reading :=
  v.denotes_iff.mpr rfl

/-- The items of an array are what the texts of the items of a list denote, in order. -/
theorem denotes_items (items : List Value)
    : List.Forall₂ (fun item => Denotes item.traced.text) items
        (Json.readingItems (tracedItems items)) := by
  rw [Json.readingItems_eq_map, tracedItems_eq_map, List.map_map, List.forall₂_map_right_iff,
    List.forall₂_same]
  exact fun item _ => item.denotes_reading

end Value

namespace Fields

/-- The members of an object are the entries of a record in order, each of them once, and their
values are what the texts of the values denote.
-/
structure EncodedAs (r : Record) (members : List (String × Reading)) : Prop where
  keys : members.map (·.1) = r.keys
  once : r.keys.Nodup
  values : List.Forall₂ (fun v m => Denotes v.traced.text m.2) r.values members

theorem encodedAs_traced (r : Record)
    : r.EncodedAs (Json.readingMembers (Value.tracedFields r)) where
  keys := by simp [Json.readingMembers_eq_map, Value.tracedFields_eq_map, keys, Function.comp_def]
  once := r.pairwise_keys.imp String.ne_of_lt
  values := by
    rw [Json.readingMembers_eq_map, Value.tracedFields_eq_map, List.map_map, values,
      List.forall₂_map_left_iff, List.forall₂_map_right_iff, List.forall₂_same]
    exact fun entry _ => entry.2.denotes_reading

end Fields

namespace Value

/-- The text of a value denotes one thing, which tells the value and has no key twice: null for
undefined and null, a boolean, a number or its name if it is not finite, a string as it was, the
text of a date, the items of a list, the entries of a map, or the kind and the identity of a fact.
The items of an array are what the items of the list denote on their own, and the members of an
object are what the values of the record do, each under its key. Bindings are encoded as a map of
them is, and an escaped string is decoded to the string.
-/
theorem text_denotes (v : Value) (items : List Value) (fields : Record) (bindings : Bindings)
    (s : String)
    : (∃ r, (∀ r', Denotes v.traced.text r' ↔ r' = r) ∧ r.Unambiguous ∧ v.ToldAs r)
      ∧ (∃ readings, Denotes (list items).traced.text (.array readings)
        ∧ List.Forall₂ (fun item => Denotes item.traced.text) items readings)
      ∧ (∃ members, Denotes (map fields).traced.text (.object members)
        ∧ fields.EncodedAs members)
      ∧ (∃ members, (∀ r, Denotes bindings.traced.text r ↔ r = .object members)
        ∧ (Reading.object members).Unambiguous
        ∧ FieldsToldAs bindings members
        ∧ bindings.EncodedAs members)
      ∧ (∀ r, Denotes (Json.escaped s) r ↔ r = .string s)
      ∧ Reading.parse? (Json.escaped s) = some (.string s) := by
  have sound := bindings.traced_isSound
  have quoted : (Json.string s).text = Json.escaped s := by rw [Json.text]
  refine ⟨⟨v.traced.reading, fun _ => v.denotes_iff, v.traced_isSound.unambiguous,
    v.toldAs_traced⟩, ⟨_, (list items).denotes_reading, denotes_items items⟩,
    ⟨_, (map fields).denotes_reading, fields.encodedAs_traced⟩, ?_, ?_, ?_⟩
  · exact ⟨Json.readingMembers (tracedFields bindings),
      fun _ => Json.denotes_text_iff sound.finite, sound.unambiguous,
      fieldsToldAs_traced bindings, bindings.encodedAs_traced⟩
  · exact quoted ▸ fun _ => Json.denotes_text_iff (Json.IsSound.string s).finite
  · exact quoted ▸ Json.parse?_text (Json.IsSound.string s).finite

end Value

end RuleEngine
