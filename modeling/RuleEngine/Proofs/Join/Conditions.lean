import RuleEngine.Join
import RuleEngine.Store.Basic

/-! When a fact meets a single condition, and what is bound then. -/

namespace RuleEngine

/-- A value matches a pattern under bindings, and `b'` is bound then. -/
def Pattern.Matches (p : Pattern) (v : Value) (b b' : Bindings) : Prop :=
  p.match? v b = some ⟨true, b'⟩

/-- All guards evaluate to something that counts as true. -/
def GuardsHold (b : Bindings) (guards : List Expr) : Prop :=
  ∀ guard ∈ guards, ∃ v, guard.evaluate b = .ok v ∧ v.isTruthy

namespace PatternCondition

/-- A fact agrees with the name that a condition gives it. It is bound with the question mark, as a
variable, and without it.
-/
inductive Names (f : Fact) (b : Bindings) : Option String → Bindings → Prop where
  | unnamed : Names f b none b
  | named {name : String} {b' : Bindings} (agrees : (Pattern.varNamed name).Matches (.fact f) b b')
    : Names f b (some name) (b'.insert name (.fact f))

/-- A fact meets a pattern condition under bindings, and `b'` is bound then. -/
structure MetBy (c : PatternCondition) (f : Fact) (b b' : Bindings) : Prop where
  kind : f.kind = c.kind
  binds : ∃ matched, c.pattern.Matches (.fact f) b matched ∧ Names f matched c.factName b'
  guards : GuardsHold b' c.guards

end PatternCondition

/-- The stored facts of a kind that match a pattern under bindings. -/
def Store.matching (s : Store) (kind : String) (p : Pattern) (b : Bindings) : List Fact :=
  s.facts.filter fun f => f.kind == kind && p.accepts f b

-- --------------------------------------------------------------------------------------
-- Single steps
-- --------------------------------------------------------------------------------------

theorem Pattern.bind?_eq_some_iff {p : Pattern} {v : Value} {b b' : Bindings}
    : p.bind? v b = some b' ↔ p.Matches v b b' := by
  unfold bind? Matches
  split <;> simp_all

theorem Pattern.accepts_iff {p : Pattern} {f : Fact} {b : Bindings}
    : p.accepts f b ↔ ∃ b', p.Matches (.fact f) b b' := by
  simp only [accepts, Option.isSome_iff_exists, bind?_eq_some_iff]

theorem checkGuards_eq_passed_iff {b : Bindings} {guards : List Expr}
    : checkGuards b guards = .passed ↔ GuardsHold b guards := by
  induction guards with
  | nil => simp [checkGuards, GuardsHold]
  | cons guard rest ih =>
    unfold checkGuards
    cases value : guard.evaluate b with
    | error failure => simp [GuardsHold, value]
    | ok v =>
      cases truthy : v.isTruthy with
      | false => simp [GuardsHold, value, truthy]
      | true => simpa [GuardsHold, value, truthy] using ih

/-- The bindings under which a fact meets a pattern condition, its guards left aside. A name given
to the fact is bound with the question mark, as a variable, and without it.
-/
def PatternCondition.bindFact? (c : PatternCondition) (f : Fact) (b : Bindings) : Option Bindings :=
  (c.pattern.bind? (.fact f) b).bind fun b =>
    match c.factName with
    | none => some b
    | some name => ((Pattern.varNamed name).bind? (.fact f) b).map (·.insert name (.fact f))

/-- The bindings under which a fact meets a pattern condition, guards included. -/
def PatternCondition.admit? (c : PatternCondition) (f : Fact) (b : Bindings) : Option Bindings :=
  (c.bindFact? f b).filter fun b' => checkGuards b' c.guards matches .passed

@[simp]
theorem PatternCondition.names_none_iff {f : Fact} {b b' : Bindings}
    : Names f b none b' ↔ b = b' := by
  constructor
  · intro names
    cases names
    rfl
  · intro same
    exact same ▸ .unnamed

@[simp]
theorem PatternCondition.names_some_iff {f : Fact} {b b' : Bindings} {name : String}
    : Names f b (some name) b'
      ↔ ∃ named, (Pattern.varNamed name).Matches (.fact f) b named
        ∧ named.insert name (.fact f) = b' := by
  constructor
  · intro names
    cases names with
    | named agrees => exact ⟨_, agrees, rfl⟩
  · rintro ⟨named, agrees, rfl⟩
    exact .named agrees

theorem PatternCondition.bindFact?_eq_some_iff {c : PatternCondition} {f : Fact} {b b' : Bindings}
    : c.bindFact? f b = some b'
      ↔ ∃ matched, c.pattern.Matches (.fact f) b matched ∧ Names f matched c.factName b' := by
  unfold bindFact?
  rw [Option.bind_eq_some_iff]
  refine exists_congr fun matched => and_congr Pattern.bind?_eq_some_iff ?_
  cases c.factName with
  | none => simp
  | some name => simp [Pattern.bind?_eq_some_iff]

/-- What is admitted matches, agrees with the name and passes the guards. -/
theorem PatternCondition.admit?_eq_some_iff {c : PatternCondition} {f : Fact} {b b' : Bindings}
    : c.admit? f b = some b'
      ↔ (∃ matched, c.pattern.Matches (.fact f) b matched ∧ Names f matched c.factName b')
        ∧ GuardsHold b' c.guards := by
  have passed : (checkGuards b' c.guards matches .passed) = true
      ↔ checkGuards b' c.guards = .passed := by
    cases checkGuards b' c.guards <;> simp
  rw [admit?, Option.filter_eq_some_iff, bindFact?_eq_some_iff, passed, checkGuards_eq_passed_iff]

theorem PatternCondition.metBy_iff {c : PatternCondition} {f : Fact} {b b' : Bindings}
    : c.MetBy f b b' ↔ f.kind = c.kind ∧ c.admit? f b = some b' := by
  rw [admit?_eq_some_iff]
  exact ⟨fun ⟨kind, binds, guards⟩ => ⟨kind, binds, guards⟩,
    fun ⟨kind, binds, guards⟩ => ⟨kind, binds, guards⟩⟩

end RuleEngine
