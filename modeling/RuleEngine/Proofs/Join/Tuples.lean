import Mathlib.Data.List.Nodup
import RuleEngine.Proofs.Join.Trials

/-! What a join finds: the tuples of stored facts that meet the conditions from left to right, each
of them once, in the lexicographic order of their identities.
-/

namespace RuleEngine

/-- A tuple of stored facts, one for each pattern condition, meets conditions one after the other,
each under what is bound by then.
-/
inductive Store.Meets (s : Store) : List Condition → Bindings → List Fact → Bindings → Prop where
  | done (b : Bindings) : Meets s [] b [] b
  | pattern {c : PatternCondition} {rest : List Condition} {b b' b'' : Bindings} {f : Fact}
    {tuple : List Fact} (stored : f ∈ s.facts) (met : c.MetBy f b b')
    (onward : Meets s rest b' tuple b'')
    : Meets s (.pattern c :: rest) b (f :: tuple) b''
  | accumulate {c : AccumulateCondition} {rest : List Condition} {b b' b'' : Bindings}
    {tuple : List Fact}
    (agrees : (Pattern.var c.target).Matches
      (c.accumulator.apply (s.matching c.kind c.pattern b)) b b')
    (onward : Meets s rest b' tuple b'')
    : Meets s (.accumulate c :: rest) b tuple b''
  | lacks {c : LacksCondition} {rest : List Condition} {b b' : Bindings} {tuple : List Fact}
    (absent : ∀ f ∈ s.facts, f.kind = c.kind → ¬∃ bound, c.pattern.Matches (.fact f) b bound)
    (onward : Meets s rest b tuple b')
    : Meets s (.lacks c :: rest) b tuple b'

/-- The matches that a join of conditions finds in a store. -/
def Store.join (s : Store) (conditions : List Condition) (b : Bindings) : List Match :=
  Join.found (Join.steps s.factsOfKind conditions b)

/-- The consumed facts of one match come before those of another in lexicographic order. -/
def Match.Before (m m' : Match) : Prop := m.consumed.map (·.number) < m'.consumed.map (·.number)

namespace Store

variable {s : Store}

theorem join_nil (s : Store) (b : Bindings) : s.join [] b = [⟨b, []⟩] := rfl

theorem join_pattern (s : Store) (c : PatternCondition) (rest : List Condition) (b : Bindings)
    : s.join (.pattern c :: rest) b
      = (s.factsOfKind c.kind).flatMap fun f =>
          match c.admit? f b with
          | none => []
          | some b' => (s.join rest b').map fun m => { m with consumed := f.id :: m.consumed } :=
  Join.found_pattern c rest b

theorem join_accumulate (s : Store) (c : AccumulateCondition) (rest : List Condition)
    (b : Bindings)
    : s.join (.accumulate c :: rest) b
      = match (Pattern.var c.target).bind? (Join.aggregate (s.factsOfKind c.kind) c b) b with
        | none => []
        | some b' => s.join rest b' :=
  Join.found_accumulate c rest b

theorem join_lacks (s : Store) (c : LacksCondition) (rest : List Condition) (b : Bindings)
    : s.join (.lacks c :: rest) b
      = if (s.factsOfKind c.kind).any (c.pattern.accepts · b) then [] else s.join rest b :=
  Join.found_lacks c rest b

/-- A match of a pattern condition and others goes on from a fact that is admitted. -/
theorem mem_join_pattern_iff {c : PatternCondition} {rest : List Condition} {b : Bindings}
    {m : Match}
    : m ∈ s.join (.pattern c :: rest) b
      ↔ ∃ f ∈ s.factsOfKind c.kind, ∃ b', c.admit? f b = some b'
        ∧ ∃ onward ∈ s.join rest b', m = ⟨onward.bindings, f.id :: onward.consumed⟩ := by
  rw [join_pattern, List.mem_flatMap]
  refine exists_congr fun f => and_congr_right fun _ => ?_
  cases c.admit? f b with
  | none => simp
  | some b' => simp [eq_comm]

theorem mem_join_accumulate_iff {c : AccumulateCondition} {rest : List Condition} {b : Bindings}
    {m : Match}
    : m ∈ s.join (.accumulate c :: rest) b
      ↔ ∃ b', (Pattern.var c.target).Matches (Join.aggregate (s.factsOfKind c.kind) c b) b b'
        ∧ m ∈ s.join rest b' := by
  simp only [join_accumulate, ← Pattern.bind?_eq_some_iff]
  cases (Pattern.var c.target).bind? (Join.aggregate (s.factsOfKind c.kind) c b) b <;> simp

theorem mem_join_lacks_iff {c : LacksCondition} {rest : List Condition} {b : Bindings} {m : Match}
    : m ∈ s.join (.lacks c :: rest) b
      ↔ (s.factsOfKind c.kind).any (c.pattern.accepts · b) = false ∧ m ∈ s.join rest b := by
  rw [join_lacks]
  cases (s.factsOfKind c.kind).any (c.pattern.accepts · b) <;> simp

/-- A join finds exactly the tuples that meet its conditions, by induction on the conditions. -/
theorem Coherent.mem_join_iff (coherent : s.Coherent) {conditions : List Condition}
    {b : Bindings} {m : Match}
    : m ∈ s.join conditions b
      ↔ ∃ tuple, s.Meets conditions b tuple m.bindings ∧ m.consumed = tuple.map (·.id) := by
  induction conditions generalizing b m with
  | nil =>
    constructor
    · intro found
      obtain rfl := List.mem_singleton.mp found
      exact ⟨[], .done b, rfl⟩
    · rintro ⟨tuple, ⟨⟩, consumed⟩
      obtain ⟨bindings, ids⟩ := m
      obtain rfl : ids = [] := consumed
      exact List.mem_singleton.mpr rfl
  | cons condition rest ih =>
    cases condition with
    | pattern c =>
      rw [mem_join_pattern_iff]
      constructor
      · rintro ⟨f, filed, b', admitted, inner, later, rfl⟩
        obtain ⟨stored, kind⟩ := coherent.mem_factsOfKind.mp filed
        obtain ⟨tuple, onward, consumed⟩ := ih.mp later
        have met := PatternCondition.metBy_iff.mpr ⟨kind, admitted⟩
        exact ⟨f :: tuple, .pattern stored met onward, by simp [consumed]⟩
      · rintro ⟨tuple, meets, consumed⟩
        cases meets with
        | @pattern _ _ _ b' _ f tuple stored met onward =>
          obtain ⟨kind, admitted⟩ := PatternCondition.metBy_iff.mp met
          have later : ⟨m.bindings, tuple.map (·.id)⟩ ∈ s.join rest b' :=
            ih.mpr ⟨tuple, onward, rfl⟩
          exact ⟨f, coherent.mem_factsOfKind.mpr ⟨stored, kind⟩, b', admitted, _, later,
            congrArg (Match.mk m.bindings) consumed⟩
    | accumulate c =>
      rw [mem_join_accumulate_iff, Join.aggregate, coherent.filter_factsOfKind]
      constructor
      · rintro ⟨b', agrees, later⟩
        obtain ⟨tuple, onward, consumed⟩ := ih.mp later
        exact ⟨tuple, .accumulate agrees onward, consumed⟩
      · rintro ⟨tuple, meets, consumed⟩
        cases meets with
        | accumulate agrees onward => exact ⟨_, agrees, ih.mpr ⟨tuple, onward, consumed⟩⟩
    | lacks c =>
      rw [mem_join_lacks_iff, coherent.any_accepts_eq_false_iff]
      constructor
      · rintro ⟨absent, later⟩
        obtain ⟨tuple, onward, consumed⟩ := ih.mp later
        exact ⟨tuple, .lacks absent onward, consumed⟩
      · rintro ⟨tuple, meets, consumed⟩
        cases meets with
        | lacks absent onward => exact ⟨absent, ih.mpr ⟨tuple, onward, consumed⟩⟩

/-- Matches come in the lexicographic order of what they consume, by induction on the conditions:
candidates come in the order of their identities, and those that share the first fact in the order
of the rest.
-/
theorem Coherent.pairwise_join (coherent : s.Coherent) (conditions : List Condition)
    (b : Bindings)
    : (s.join conditions b).Pairwise Match.Before := by
  induction conditions generalizing b with
  | nil => exact List.pairwise_singleton _ _
  | cons condition rest ih =>
    cases condition with
    | pattern c =>
      rw [join_pattern, List.pairwise_flatMap]
      constructor
      · intro f _
        split
        · exact .nil
        · rw [List.pairwise_map]
          exact (ih _).imp fun before => List.cons_lt_cons_iff.mpr (.inr ⟨rfl, before⟩)
      · refine (coherent.ascending_factsOfKind c.kind).imp fun below m here m' there => ?_
        split at here
        · cases here
        · split at there
          · cases there
          · obtain ⟨inner, -, rfl⟩ := List.mem_map.mp here
            obtain ⟨inner', -, rfl⟩ := List.mem_map.mp there
            exact List.cons_lt_cons_iff.mpr (.inl below)
    | accumulate c =>
      rw [join_accumulate]
      split
      · exact .nil
      · exact ih _
    | lacks c =>
      rw [join_lacks]
      split
      · exact .nil
      · exact ih b

/-- No two matches consume the same facts. -/
theorem Coherent.nodup_join (coherent : s.Coherent) (conditions : List Condition) (b : Bindings)
    : ((s.join conditions b).map (·.consumed)).Nodup := by
  refine List.pairwise_map.mpr ((coherent.pairwise_join conditions b).imp fun before same => ?_)
  rw [Match.Before, same] at before
  exact List.lt_irrefl _ before

end Store

namespace Engine

variable {ν : Type}

/-- An engine finds the matches of a join in its store, or as many as a limit leaves. -/
theorem result_matchesFor (definition : String) (conditions : List Condition) (b : Bindings)
    (limit : Option Nat) (e : Engine ν)
    : ((matchesFor definition conditions b limit).run e).result
      = Join.withinLimit limit (e.store.join conditions b) :=
  Join.found_upTo limit _

/-- An engine that joins comes to its end with all matches, if every match that is tried has an
outcome.
-/
theorem yields_matchesFor {definition : String} {conditions : List Condition} {b : Bindings}
    {e : Engine ν} (coherent : e.store.Coherent) (returns : e.store.JoinReturns conditions b)
    : (matchesFor definition conditions b none).Yields e (e.store.join conditions b) :=
  ⟨(returns_matchesFor_none_iff coherent).mpr returns, rfl⟩

end Engine

/-- A join finds the tuples of stored facts that meet its conditions, under the bindings that they
leave, and nothing else. Each tuple is found once, whatever else was tried, and the tuples come in
the lexicographic order of their identities. An engine that joins gets all of them, or as many of
the first as a limit leaves; it comes to the end of the join if every match that is tried has an
outcome, and without a limit only then.
-/
theorem Store.Built.join_exact {s : Store} (built : s.Built) (conditions : List Condition)
    (b : Bindings)
    : (∀ m, m ∈ s.join conditions b
        ↔ ∃ tuple, s.Meets conditions b tuple m.bindings ∧ m.consumed = tuple.map (·.id))
      ∧ (∀ tuple b', s.Meets conditions b tuple b' →
        ((s.join conditions b).map (·.consumed)).count (tuple.map (·.id)) = 1)
      ∧ (s.join conditions b).Pairwise Match.Before
      ∧ ∀ {ν : Type} (e : Engine ν) (definition : String), e.store = s →
        (∀ limit, ((Engine.matchesFor definition conditions b limit).run e).result
            = Join.withinLimit limit (s.join conditions b))
          ∧ (((Engine.matchesFor definition conditions b none).run e).Returns
            ↔ s.JoinReturns conditions b)
          ∧ (s.JoinReturns conditions b → ∀ limit,
            (Engine.matchesFor definition conditions b limit).Yields e
              (Join.withinLimit limit (s.join conditions b))) := by
  have coherent := built.coherent
  refine ⟨fun m => coherent.mem_join_iff, ?_, coherent.pairwise_join conditions b, ?_⟩
  · intro tuple b' meets
    have found : ⟨b', tuple.map (·.id)⟩ ∈ s.join conditions b :=
      coherent.mem_join_iff.mpr ⟨tuple, meets, rfl⟩
    exact List.count_eq_one_of_mem (coherent.nodup_join conditions b)
      (List.mem_map_of_mem (f := Match.consumed) found)
  · rintro ν e definition rfl
    have unlimited : ((Engine.matchesFor definition conditions b none).run e).Returns
        ↔ e.store.JoinReturns conditions b :=
      Engine.returns_matchesFor_none_iff coherent
    have results (limit : Option Nat) :=
      Engine.result_matchesFor definition conditions b limit e
    exact ⟨results, unlimited, fun returns limit =>
      ⟨Engine.returns_matchesFor_of_none (unlimited.mpr returns) limit, results limit⟩⟩

namespace Sample

/-- A record that names its kind and a level. -/
def levelOf (kind level : String) : Record :=
  .ofList [(Fact.kindField, .string kind), ("level", .string level)]

/-- A store with one more record stated, if the record names a kind. -/
def state (s : Store) (r : Record) : Store :=
  match s.assert r .stated with
  | .ok (_, s') => s'
  | .error _ => s

/-- Stating records one after the other keeps to stores that come about, by induction on them. -/
theorem built_state {s : Store} (built : s.Built) (records : List Record)
    : (records.foldl state s).Built := by
  induction records generalizing s with
  | nil => exact built
  | cons r rest ih =>
    refine ih ?_
    unfold state
    split
    · rename_i asserted
      exact built.assert asserted
    · exact built

/-- Readings that are tagged with their level. -/
def tagged : List Condition :=
  [.matching "Reading" (.record [("level", .varNamed "a"), ("tags", .varNamed "a")]) none []]

def readingOf (level tags : Value) : Record :=
  .ofList [(Fact.kindField, .string "Reading"), ("level", level), ("tags", tags)]

/-- A reading that is tagged with its level. -/
def plain : Record := readingOf (.string "low") (.string "low")

/-- A reading whose level is the rest of itself, so that its tags are matched with it time and
again.
-/
def tangled : Record := readingOf (.list [.string "...?a"]) (.list [])

/-- Two readings of different levels, the first of which is named, while nothing is alarming. -/
def twoReadings : List Condition :=
  [.matching "Reading" (.record [("level", .varNamed "a")]) (some "first") [],
    .accumulating "Reading" (.record [("level", .varNamed "b")]) ⟨.count, none⟩ "n",
    .lacking "Alarm" .wildcard,
    .matching "Reading" (.record [("level", .varNamed "b")]) none
      [.call "!==" [.varNamed "a", .varNamed "b"]]]

/-- The store has two such readings in either order, and a tuple of facts for each order. -/
theorem twoReadings_exact
    : ∃ s : Store, s.Built
        ∧ (s.join twoReadings .empty).map (·.consumed) = [[⟨1⟩, ⟨3⟩], [⟨3⟩, ⟨1⟩]]
        ∧ ∀ m ∈ s.join twoReadings .empty,
            ∃ tuple, s.Meets twoReadings .empty tuple m.bindings
              ∧ m.consumed = tuple.map (·.id) := by
  have built := built_state .empty
    [levelOf "Reading" "low", levelOf "Place" "low", levelOf "Reading" "high"]
  obtain ⟨exact, -⟩ := built.join_exact twoReadings .empty
  exact ⟨_, built, by decide +kernel, fun m found => (exact m).mp found⟩

end Sample

end RuleEngine
