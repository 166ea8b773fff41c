import RuleEngine.Proofs.Store.Coherence

/-! The lifetime of a store. Whatever is asserted, rejected, taken out and cleared, in any order,
the entries, the index by kind and the number of the next identity agree; and from one clearing to
the next no identity is issued a second time.
-/

namespace RuleEngine

namespace Store

-- --------------------------------------------------------------------------------------
-- What a store holds
-- --------------------------------------------------------------------------------------

/-- The entries, the index and the next identity of a store agree. -/
structure Agrees (s : Store) : Prop where
  /-- An entry is found under the identity of its fact, and under no other. -/
  found : ∀ id entry, s.entry? id = some entry ↔ entry ∈ s.entries ∧ entry.id = id
  ascending : s.entries.Pairwise (·.id.number < ·.id.number)
  issued : ∀ entry ∈ s.entries, 0 < entry.id.number ∧ entry.id.number < s.next
  kindField : ∀ entry ∈ s.entries,
    entry.fact.kind ≠ "" ∧ entry.fact.get? Fact.kindField = some (.string entry.fact.kind)
  /-- The index files the facts of each kind that there is, and no other kind. -/
  index : ∀ kind facts,
    (kind, facts) ∈ s.index ↔ facts = s.facts.filter (·.kind == kind) ∧ facts ≠ []
  factsOfKind : ∀ kind, s.factsOfKind kind = s.facts.filter (·.kind == kind)
  sorted : s.kinds.Pairwise (· < ·)
  kinds : ∀ kind, kind ∈ s.kinds ↔ ∃ entry ∈ s.entries, entry.fact.kind = kind

/-- Identities are positive, and the kind of a fact is the one that its record names. -/
structure Named (s : Store) : Prop where
  begun : 0 < s.next
  positive : ∀ entry ∈ s.entries, 0 < entry.id.number
  kind : ∀ entry ∈ s.entries, kindOf? entry.fact.fields = some entry.fact.kind

/-- Every store that comes about is named, by induction on the changes. -/
theorem Built.named {s : Store} (built : s.Built) : s.Named := by
  induction built with
  | empty => exact ⟨Nat.one_pos, nofun, nofun⟩
  | @assert s s' r origin entry _ asserted ih =>
    cases named : kindOf? r with
    | none => simp [assert_eq_error_iff.mpr ⟨named, rfl⟩] at asserted
    | some kind =>
      rw [assert_of_kindOf? s named] at asserted
      obtain ⟨rfl, rfl⟩ := Prod.mk.inj (Except.ok.inj asserted)
      refine ⟨Nat.succ_pos _, fun other member => ?_, fun other member => ?_⟩
      · rcases List.mem_append.mp member with old | last
        · exact ih.positive other old
        · obtain rfl := List.mem_singleton.mp last
          exact ih.begun
      · rcases List.mem_append.mp member with old | last
        · exact ih.kind other old
        · obtain rfl := List.mem_singleton.mp last
          exact named
  | retract _ retracted ih =>
    obtain ⟨-, -, rfl⟩ := retract?_eq_some retracted
    exact ⟨ih.begun, fun other kept => ih.positive other (List.mem_filter.mp kept).1,
      fun other kept => ih.kind other (List.mem_filter.mp kept).1⟩

/-- A store that is coherent and named agrees with itself. -/
theorem Built.agrees {s : Store} (built : s.Built) : s.Agrees := by
  have coherent := built.coherent
  have named := built.named
  have index (kind : String) (facts : List Fact)
      : (kind, facts) ∈ s.index ↔ facts = s.facts.filter (·.kind == kind) ∧ facts ≠ [] := by
    rw [coherent.ordered.mem_iff, ← coherent.filed kind]
    rfl
  refine {
    found := fun id entry => coherent.entry?_eq_some_iff
    ascending := coherent.ascending
    issued := fun entry member => ⟨named.positive entry member, coherent.issued entry member⟩
    kindField := fun entry member => (kindOf?_eq_some_iff.mp (named.kind entry member)).symm
    index
    factsOfKind := coherent.filed
    sorted := List.pairwise_map.mpr coherent.ordered.ascending
    kinds := fun kind => ?_
  }
  constructor
  · intro listed
    obtain ⟨⟨name, facts⟩, member, rfl⟩ := List.mem_map.mp listed
    obtain ⟨rfl, inhabited⟩ := (index name facts).mp member
    obtain ⟨f, filtered⟩ := List.exists_mem_of_ne_nil _ inhabited
    obtain ⟨stored, same⟩ := List.mem_filter.mp filtered
    obtain ⟨entry, member, rfl⟩ := List.mem_map.mp stored
    exact ⟨entry, member, by simpa using same⟩
  · rintro ⟨entry, member, rfl⟩
    have filed : entry.fact ∈ s.facts.filter (·.kind == entry.fact.kind) :=
      List.mem_filter.mpr ⟨List.mem_map_of_mem member, by simp⟩
    exact List.mem_map.mpr ⟨_, (index _ _).mpr ⟨rfl, List.ne_nil_of_mem filed⟩, rfl⟩

-- --------------------------------------------------------------------------------------
-- What is done to a store
-- --------------------------------------------------------------------------------------

inductive Command where
  | assert (r : Record) (origin : Origin)
  | retract (id : FactId)
  | clear

namespace Command

/-- The store after a command. What is rejected and what is not stored leave it as it is. -/
def perform (s : Store) : Command → Store
  | assert r origin =>
    match s.assert r origin with
    | .ok (_, s') => s'
    | .error _ => s
  | retract id =>
    match s.retract? id with
    | some (_, s') => s'
    | none => s
  | clear => .empty

/-- The identity that a command makes a store issue. -/
def issued? (s : Store) : Command → Option FactId
  | assert r origin =>
    match s.assert r origin with
    | .ok (entry, _) => some entry.id
    | .error _ => none
  | retract _ | clear => none

end Command

def after (s : Store) (commands : List Command) : Store := commands.foldl Command.perform s

/-- The identities that a store issues in the course of some commands. -/
def issuedBy (s : Store) : List Command → List FactId
  | [] => []
  | command :: rest => (command.issued? s).toList ++ (command.perform s).issuedBy rest

variable {s : Store}

/-- Whatever is done to a store that came about, it came about. -/
theorem Built.perform (built : s.Built) (command : Command) : (command.perform s).Built := by
  cases command with
  | assert r origin =>
    cases asserted : s.assert r origin with
    | error failure => simpa only [Command.perform, asserted] using built
    | ok stored => simpa only [Command.perform, asserted] using built.assert asserted
  | retract id =>
    cases retracted : s.retract? id with
    | none => simpa only [Command.perform, retracted] using built
    | some taken => simpa only [Command.perform, retracted] using built.retract retracted
  | clear => exact .empty

/-- By induction on the commands. -/
theorem Built.after (built : s.Built) (commands : List Command) : (s.after commands).Built := by
  induction commands generalizing s with
  | nil => exact built
  | cons command rest ih => exact ih (built.perform command)

/-- An assertion is rejected exactly if the record names no kind, and otherwise it issues the next
identity.
-/
theorem Command.issued?_assert (s : Store) (r : Record) (origin : Origin)
    : (Command.assert r origin).issued? s = (kindOf? r).map fun _ => ⟨s.next⟩ := by
  cases named : kindOf? r with
  | none => simp [issued?, assert_eq_error_iff.mpr ⟨named, rfl⟩]
  | some kind => simp [issued?, assert_of_kindOf? s named, Entry.id]

theorem Command.perform_of_rejected {r : Record} {origin : Origin} (unnamed : kindOf? r = none)
    : (Command.assert r origin).perform s = s := by
  simp [perform, assert_eq_error_iff.mpr ⟨unnamed, rfl⟩]

/-- A store issues no other identity than the next one. -/
theorem Command.issued?_eq (s : Store) (command : Command)
    : command.issued? s = none ∨ command.issued? s = some ⟨s.next⟩ := by
  cases command with
  | assert r origin =>
    rw [issued?_assert]
    cases kindOf? r with
    | none => exact .inl rfl
    | some kind => exact .inr rfl
  | retract id => exact .inl rfl
  | clear => exact .inl rfl

/-- Unless a store is cleared, the next identity moves on with each one that is issued. -/
theorem Command.next_perform {command : Command} (kept : command ≠ clear)
    : (command.perform s).next = s.next + (command.issued? s).toList.length := by
  cases command with
  | assert r origin =>
    cases named : kindOf? r with
    | none => simp [perform_of_rejected named, issued?_assert, named]
    | some kind => simp [perform, issued?_assert, assert_of_kindOf? s named, named]
  | retract id =>
    cases retracted : s.retract? id with
    | none => simp [perform, issued?, retracted]
    | some taken =>
      obtain ⟨-, -, same⟩ := retract?_eq_some retracted
      simp [perform, issued?, retracted, same]
  | clear => exact absurd rfl kept

/-- The identities that are issued until a store is cleared follow each other without a gap, by
induction on the commands.
-/
theorem map_number_issuedBy {commands : List Command} (kept : .clear ∉ commands)
    : (s.issuedBy commands).map (·.number) = List.range' s.next (s.issuedBy commands).length := by
  induction commands generalizing s with
  | nil => rfl
  | cons command rest ih =>
    have uncleared : command ≠ .clear := fun same => kept (same ▸ List.mem_cons_self)
    have others := ih (s := command.perform s) fun later => kept (List.mem_cons_of_mem _ later)
    rw [Command.next_perform uncleared] at others
    rcases Command.issued?_eq s command with none | next
    · simpa [issuedBy, none] using others
    · simpa [issuedBy, next, List.range'_succ] using others

/-- Whatever was done to a store before, its entries, its index and its next identity agree. What is
asserted next is rejected exactly if the record names no kind, and then nothing changes; otherwise
it gets the next identity. Until the store is cleared, the identities that it issues ascend one by
one, so that none is issued twice and none that is stored is issued again.
-/
theorem agrees_after (commands : List Command)
    : (empty.after commands).Agrees
      ∧ (∀ r origin, (Command.assert r origin).issued? (empty.after commands)
        = (kindOf? r).map fun _ => ⟨(empty.after commands).next⟩)
      ∧ (∀ r origin, kindOf? r = none →
        (Command.assert r origin).perform (empty.after commands) = empty.after commands)
      ∧ ∀ more, .clear ∉ more →
        ((empty.after commands).issuedBy more).Pairwise (·.number < ·.number)
        ∧ ((empty.after commands).issuedBy more).map (·.number)
          = List.range' (empty.after commands).next ((empty.after commands).issuedBy more).length
        ∧ ∀ entry ∈ (empty.after commands).entries,
          entry.id ∉ (empty.after commands).issuedBy more := by
  have built : empty.Built := .empty
  have agrees := (built.after commands).agrees
  refine ⟨agrees, fun r origin => Command.issued?_assert _ r origin,
    fun r origin => Command.perform_of_rejected, fun more kept => ?_⟩
  have numbers := map_number_issuedBy (s := empty.after commands) kept
  refine ⟨?_, numbers, fun entry stored again => ?_⟩
  · apply List.pairwise_map.mp
    rw [numbers]
    exact List.pairwise_lt_range'
  · have number : entry.id.number ∈ ((empty.after commands).issuedBy more).map (·.number) :=
      List.mem_map_of_mem again
    rw [numbers, List.mem_range'_1] at number
    have below := (agrees.issued entry stored).2
    omega

end Store

namespace Sample

open Store

/-- A record that names a kind and nothing else. -/
def naming (kind : String) : Record := .ofList [(Fact.kindField, .string kind)]

/-- A store in which an order came, went and came again, and which was cleared in between. -/
def used : List Command :=
  [.assert (naming "Order") .stated, .clear, .assert (naming "Order") .stated,
    .assert (naming "Line") .stated, .retract ⟨1⟩, .retract ⟨1⟩, .assert (naming "Order") .stated]

/-- A record without a kind, a retraction of what was never stored, and two records with a kind. -/
def next : List Command :=
  [.assert (naming "") .stated, .assert (naming "Line") .stated, .retract ⟨9⟩,
    .assert (naming "Order") .stated]

/-- The order that came again has a new identity, and the identities go on from there. -/
theorem used_agrees
    : (empty.after used).Agrees
      ∧ (empty.after used).kinds = ["Line", "Order"]
      ∧ ((empty.after used).factsOfKind "Order").map (·.id.number) = [3]
      ∧ (Command.assert (naming "") .stated).perform (empty.after used) = empty.after used
      ∧ ((empty.after used).issuedBy next).map (·.number) = [4, 5]
      ∧ ((empty.after used).issuedBy next).Pairwise (·.number < ·.number) := by
  obtain ⟨agrees, -, unchanged, issues⟩ := agrees_after used
  obtain ⟨ascending, -, -⟩ := issues next (by simp [next])
  exact ⟨agrees, by decide +kernel, by decide +kernel, unchanged _ _ (by decide +kernel),
    by decide +kernel, ascending⟩

end Sample

end RuleEngine
