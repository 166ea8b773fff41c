import RuleEngine.Proofs.Store.Index
import RuleEngine.Value.Lemmas

/-! Coherence of a store: identities ascend and stay below the one that is issued next, and the
index files exactly the stored facts. The index is thereby a function of the entries.
-/

namespace RuleEngine

namespace Store

/-- The entries stand in the order of their identities, which were all issued, and each kind files
the facts of that kind in the same order.
-/
structure Coherent (s : Store) : Prop where
  ascending : s.entries.Pairwise (·.id.number < ·.id.number)
  issued : ∀ entry ∈ s.entries, entry.id.number < s.next
  ordered : KindIndex.Ordered s.index
  filed : ∀ kind, s.factsOfKind kind = s.facts.filter (·.kind == kind)

/-- An asserted fact has the next identity and stands behind all others. -/
theorem assert_eq_ok {s s' : Store} {r : Record} {origin : Origin} {entry : Entry}
    (asserted : s.assert r origin = .ok (entry, s'))
    : entry.id = ⟨s.next⟩ ∧ entry.origin = origin
      ∧ s' = ⟨s.entries ++ [entry], KindIndex.file entry.fact s.index, s.next + 1⟩ := by
  unfold assert at asserted
  split at asserted
  · cases asserted
  · obtain ⟨rfl, rfl⟩ := Prod.mk.inj (Except.ok.inj asserted)
    exact ⟨rfl, rfl, rfl⟩

/-- The kind of a record is a text that is not empty. -/
theorem kindOf?_eq_some_iff {r : Record} {kind : String}
    : kindOf? r = some kind ↔ r.get? Fact.kindField = some (.string kind) ∧ kind ≠ "" := by
  unfold kindOf?
  split
  · rename_i name found
    by_cases empty : name = "" <;> simp [found, empty, String.isEmpty_iff]
    rintro rfl
    exact empty
  · rename_i other
    constructor
    · nofun
    · rintro ⟨found, -⟩
      exact absurd found (other kind)

/-- A record that names a kind is stored, and its fact has the record's fields. -/
theorem assert_of_kindOf? (s : Store) {r : Record} {kind : String} (named : kindOf? r = some kind)
    (origin : Origin)
    : s.assert r origin
      = .ok (⟨⟨⟨s.next⟩, kind, r⟩, origin⟩,
          ⟨s.entries ++ [⟨⟨⟨s.next⟩, kind, r⟩, origin⟩],
            KindIndex.file ⟨⟨s.next⟩, kind, r⟩ s.index, s.next + 1⟩) := by
  have same : r.insert Fact.kindField (.string kind) = r := by
    apply Fields.ext_get?
    intro name
    rw [Fields.get?_insert]
    split
    · rename_i here
      rw [here, (kindOf?_eq_some_iff.mp named).1]
    · rfl
  simp [assert, named, Fact.ofRecord, same]

theorem assert_eq_error_iff {s : Store} {r : Record} {origin : Origin} {failure : Failure}
    : s.assert r origin = .error failure ↔ kindOf? r = none ∧ failure = .missingKind := by
  cases named : kindOf? r with
  | none => simp [assert, named, eq_comm]
  | some kind => simp [assert_of_kindOf? s named]

/-- Only a fact that is stored is taken out, and its entry alone goes. -/
theorem retract?_eq_some {s s' : Store} {id : FactId} {entry : Entry}
    (retracted : s.retract? id = some (entry, s'))
    : entry ∈ s.entries ∧ entry.id = id
      ∧ s' = ⟨s.entries.filter (·.id != id), KindIndex.unfile entry.fact s.index, s.next⟩ := by
  obtain ⟨found, stored, same⟩ := Option.map_eq_some_iff.mp retracted
  obtain ⟨rfl, rfl⟩ := Prod.mk.inj same
  exact ⟨List.mem_of_find?_eq_some stored, by simpa using List.find?_some stored, rfl⟩

theorem retract?_eq_none_iff {s : Store} {id : FactId}
    : s.retract? id = none ↔ s.contains id = false := by
  simp [retract?, contains]

theorem contains_iff {s : Store} {id : FactId}
    : s.contains id = true ↔ ∃ entry ∈ s.entries, entry.id = id := by
  simp [contains, entry?]

theorem contains_eq_false_iff {s : Store} {id : FactId}
    : s.contains id = false ↔ ∀ entry ∈ s.entries, entry.id ≠ id := by
  simp [contains, entry?]

/-- A fact that is looked up by its identity is stored. -/
theorem fact?_eq_some {s : Store} {id : FactId} {f : Fact} (found : s.fact? id = some f)
    : f ∈ s.facts ∧ f.id = id := by
  obtain ⟨entry, present, rfl⟩ := Option.map_eq_some_iff.mp found
  have here : entry.id = id := by simpa using List.find?_some present
  exact ⟨List.mem_map_of_mem (List.mem_of_find?_eq_some present), here⟩

namespace Coherent

/-- No fact is stored in an empty store. -/
theorem empty : Coherent {} :=
  ⟨.nil, by simp, ⟨.nil, by simp⟩, fun _ => rfl⟩

variable {s s' : Store}

/-- An entry is determined by its identity. -/
theorem eq_of_id_eq (coherent : s.Coherent) {entry other : Entry} (here : entry ∈ s.entries)
    (there : other ∈ s.entries) (same : entry.id = other.id)
    : entry = other := by
  have numbers : entry.id.number = other.id.number := congrArg FactId.number same
  have distinct : s.entries.Pairwise fun a b => a.id.number = b.id.number → a = b :=
    coherent.ascending.imp fun below equal => absurd equal (Nat.ne_of_lt below)
  have flipped : s.entries.Pairwise fun a b => b.id.number = a.id.number → b = a :=
    coherent.ascending.imp fun below equal => absurd equal (Nat.ne_of_gt below)
  exact distinct.forall_of_forall_of_flip (fun _ _ _ => rfl) flipped here there numbers

/-- Looking up an identity finds the entry that has it. -/
theorem entry?_eq_some_iff (coherent : s.Coherent) {id : FactId} {entry : Entry}
    : s.entry? id = some entry ↔ entry ∈ s.entries ∧ entry.id = id := by
  constructor
  · intro found
    exact ⟨List.mem_of_find?_eq_some found, by simpa using List.find?_some found⟩
  · rintro ⟨member, rfl⟩
    have stored : (s.entry? entry.id).isSome := contains_iff.mpr ⟨entry, member, rfl⟩
    obtain ⟨other, found⟩ := Option.isSome_iff_exists.mp stored
    have same : other.id = entry.id := by simpa using List.find?_some found
    rw [found, coherent.eq_of_id_eq (List.mem_of_find?_eq_some found) member same]

/-- The facts of a kind are stored. -/
theorem mem_of_mem_factsOfKind (coherent : s.Coherent) {kind : String} {f : Fact}
    (member : f ∈ s.factsOfKind kind)
    : ∃ entry ∈ s.entries, entry.fact = f := by
  rw [coherent.filed] at member
  exact List.mem_map.mp (List.mem_filter.mp member).1

/-- The facts of a kind are the stored facts that have it. -/
theorem mem_factsOfKind (coherent : s.Coherent) {kind : String} {f : Fact}
    : f ∈ s.factsOfKind kind ↔ f ∈ s.facts ∧ f.kind = kind := by
  simp [coherent.filed]

/-- The facts of a kind stand in the order of their identities. -/
theorem ascending_factsOfKind (coherent : s.Coherent) (kind : String)
    : (s.factsOfKind kind).Pairwise (·.id.number < ·.id.number) := by
  rw [coherent.filed]
  refine List.Pairwise.filter _ ?_
  rw [facts, List.pairwise_map]
  exact coherent.ascending

/-- Asserting a fact keeps a store coherent, because its identity is above all others. -/
theorem assert (coherent : s.Coherent) {r : Record} {origin : Origin} {entry : Entry}
    (asserted : s.assert r origin = .ok (entry, s'))
    : s'.Coherent := by
  obtain ⟨fresh, -, rfl⟩ := assert_eq_ok asserted
  have number : entry.id.number = s.next := congrArg FactId.number fresh
  refine ⟨?_, ?_, coherent.ordered.file entry.fact, ?_⟩
  · refine List.pairwise_append.mpr ⟨coherent.ascending, by simp, ?_⟩
    intro old member other last
    obtain rfl := List.mem_singleton.mp last
    exact number ▸ coherent.issued old member
  · intro other member
    rcases List.mem_append.mp member with old | last
    · exact Nat.lt_succ_of_lt (coherent.issued other old)
    · obtain rfl := List.mem_singleton.mp last
      exact number ▸ Nat.lt_succ_self _
  · intro kind
    have filed := KindIndex.factsOf_file coherent.ordered entry.fact kind
    have before := coherent.filed kind
    simp only [factsOfKind, KindIndex.factsOf, facts] at filed before ⊢
    rw [filed, before]
    by_cases same : kind = entry.fact.kind
    · simp [same]
    · simp [same, Ne.symm same]

/-- Taking a fact out keeps a store coherent. -/
theorem retract (coherent : s.Coherent) {id : FactId} {entry : Entry}
    (retracted : s.retract? id = some (entry, s'))
    : s'.Coherent := by
  obtain ⟨member, rfl, rfl⟩ := retract?_eq_some retracted
  refine ⟨coherent.ascending.filter _, ?_, coherent.ordered.unfile entry.fact, ?_⟩
  · intro other kept
    exact coherent.issued other (List.mem_filter.mp kept).1
  · intro kind
    have filed := KindIndex.factsOf_unfile coherent.ordered entry.fact kind
    have before := coherent.filed kind
    simp only [factsOfKind, KindIndex.factsOf, facts] at filed before ⊢
    rw [filed, before]
    by_cases same : kind = entry.fact.kind
    · simp only [same, if_true, List.filter_map, List.filter_filter, Entry.id]
      congr 1
      apply List.filter_congr
      intro other _
      simp [Bool.and_comm]
    · -- No other kind has the entry, because an identity belongs to one entry.
      simp only [same, if_false, List.filter_map, List.filter_filter, Entry.id]
      congr 1
      apply List.filter_congr
      intro other stored
      by_cases gone : other.fact.id = entry.fact.id
      · have equal := coherent.eq_of_id_eq stored member gone
        simp [equal, Ne.symm same]
      · simp [gone]

/-- A coherent store is determined by its entries and the identity that it issues next. -/
theorem ext (coherent : s.Coherent) (coherent' : s'.Coherent) (entries : s.entries = s'.entries)
    (next : s.next = s'.next)
    : s = s' := by
  have index : s.index = s'.index := by
    apply coherent.ordered.ext coherent'.ordered
    intro kind
    have here := coherent.filed kind
    have there := coherent'.filed kind
    simp only [factsOfKind, facts] at here there
    unfold KindIndex.factsOf
    rw [here, there, entries]
  cases s
  cases s'
  simp only at entries next index
  rw [entries, next, index]

end Coherent

/-- The stores that come about: from the empty store on, facts are asserted and taken out. -/
inductive Built : Store → Prop where
  | empty : Built {}
  | assert {s s' : Store} {r : Record} {origin : Origin} {entry : Entry} (built : Built s)
    (asserted : s.assert r origin = .ok (entry, s'))
    : Built s'
  | retract {s s' : Store} {id : FactId} {entry : Entry} (built : Built s)
    (retracted : s.retract? id = some (entry, s'))
    : Built s'

/-- Every store that comes about is coherent, by induction on the changes. -/
theorem Built.coherent {s : Store} (built : s.Built) : s.Coherent := by
  induction built with
  | empty => exact .empty
  | assert _ asserted ih => exact ih.assert asserted
  | retract _ retracted ih => exact ih.retract retracted

end Store

end RuleEngine
