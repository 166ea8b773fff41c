import RuleEngine.Engine.Queries
import RuleEngine.Proofs.Join.Found
import RuleEngine.Proofs.Store.Coherence

/-! The matches that a join tries. The steps of a join mark those that never come to an end, so a
join comes to its end exactly if every match that it tries does.
-/

namespace RuleEngine

/-- A match has an outcome, whether it succeeds or fails. -/
def Pattern.Ends (p : Pattern) (v : Value) (b : Bindings) : Prop := ∃ r, p.match? v b = some r

/-- A join of conditions tries a pattern on a value under bindings. -/
inductive Store.Tries (s : Store)
    : List Condition → Bindings → Pattern → Value → Bindings → Prop where
  | candidate {c : PatternCondition} {rest : List Condition} {b : Bindings} {f : Fact}
    (stored : f ∈ s.facts) (kind : f.kind = c.kind)
    : Tries s (.pattern c :: rest) b c.pattern (.fact f) b
  /-- A candidate that matches has to agree with the name that it is given. -/
  | name {c : PatternCondition} {rest : List Condition} {b b' : Bindings} {f : Fact}
    {name : String} (stored : f ∈ s.facts) (kind : f.kind = c.kind)
    (matched : c.pattern.Matches (.fact f) b b') (named : c.factName = some name)
    : Tries s (.pattern c :: rest) b (.varNamed name) (.fact f) b'
  | chosen {c : PatternCondition} {rest : List Condition} {b b' d : Bindings} {f : Fact}
    {p : Pattern} {v : Value} (stored : f ∈ s.facts) (met : c.MetBy f b b')
    (onward : Tries s rest b' p v d)
    : Tries s (.pattern c :: rest) b p v d
  | counted {c : AccumulateCondition} {rest : List Condition} {b : Bindings} {f : Fact}
    (stored : f ∈ s.facts) (kind : f.kind = c.kind)
    : Tries s (.accumulate c :: rest) b c.pattern (.fact f) b
  | aggregate {c : AccumulateCondition} {rest : List Condition} {b : Bindings}
    : Tries s (.accumulate c :: rest) b (.var c.target)
        (c.accumulator.apply (s.matching c.kind c.pattern b)) b
  | accumulated {c : AccumulateCondition} {rest : List Condition} {b b' d : Bindings}
    {p : Pattern} {v : Value}
    (agrees : (Pattern.var c.target).Matches
      (c.accumulator.apply (s.matching c.kind c.pattern b)) b b')
    (onward : Tries s rest b' p v d)
    : Tries s (.accumulate c :: rest) b p v d
  /-- Facts are tried up to the first that matches. -/
  | unwanted {c : LacksCondition} {rest : List Condition} {b : Bindings} {f : Fact}
    (stored : f ∈ s.facts) (kind : f.kind = c.kind)
    (before : ∀ g ∈ s.facts, g.kind = c.kind → g.id.number < f.id.number →
      ¬∃ bound, c.pattern.Matches (.fact g) b bound)
    : Tries s (.lacks c :: rest) b c.pattern (.fact f) b
  | lacking {c : LacksCondition} {rest : List Condition} {b d : Bindings} {p : Pattern}
    {v : Value}
    (absent : ∀ f ∈ s.facts, f.kind = c.kind → ¬∃ bound, c.pattern.Matches (.fact f) b bound)
    (onward : Tries s rest b p v d)
    : Tries s (.lacks c :: rest) b p v d

/-- Every match that a join tries has an outcome. -/
def Store.JoinReturns (s : Store) (conditions : List Condition) (b : Bindings) : Prop :=
  ∀ p v d, s.Tries conditions b p v d → p.Ends v d

/-- An operation comes to its end with a result. -/
def EngineM.Yields {ν α : Type} (m : EngineM ν α) (e : Engine ν) (result : α) : Prop :=
  (m.run e).Returns ∧ (m.run e).result = result

-- --------------------------------------------------------------------------------------
-- Marks
-- --------------------------------------------------------------------------------------

namespace Join

theorem endless_notMem_attempt_iff {p : Pattern} {v : Value} {b : Bindings}
    {onward : Bindings → List JoinStep}
    : .endless ∉ attempt p v b onward
      ↔ p.Ends v b ∧ ∀ b', p.Matches v b b' → .endless ∉ onward b' := by
  unfold attempt Pattern.Ends Pattern.Matches
  rcases p.match? v b with _ | ⟨_ | _, bound⟩ <;> simp

theorem endless_notMem_probe_iff {p : Pattern} {b : Bindings} {facts : List Fact}
    : .endless ∉ probe p b facts ↔ ∀ f ∈ facts, p.Ends (.fact f) b := by
  simp only [probe, List.mem_flatMap, not_exists, not_and, endless_notMem_attempt_iff]
  simp

theorem endless_mem_map_consuming_iff {id : FactId} {steps : List JoinStep}
    : .endless ∈ steps.map (·.consuming id) ↔ .endless ∈ steps := by
  have marks (step : JoinStep) : step.consuming id = .endless ↔ step = .endless := by
    cases step <;> simp [JoinStep.consuming]
  simp [marks]

theorem endless_notMem_guarded_iff {c : PatternCondition} {onward : Bindings → List JoinStep}
    {f : Fact} {b : Bindings}
    : .endless ∉ guarded c onward f b ↔ (GuardsHold b c.guards → .endless ∉ onward b) := by
  rw [← checkGuards_eq_passed_iff]
  unfold guarded
  cases checkGuards b c.guards with
  | passed => simp [endless_mem_map_consuming_iff]
  | failed | fault => simp

/-- A candidate is matched, then its name, and an admitted one leads further on. -/
theorem endless_notMem_choose_iff {c : PatternCondition} {onward : Bindings → List JoinStep}
    {b : Bindings} {f : Fact}
    : .endless ∉ choose c onward b f
      ↔ c.pattern.Ends (.fact f) b
        ∧ (∀ matched name, c.pattern.Matches (.fact f) b matched → c.factName = some name →
          (Pattern.varNamed name).Ends (.fact f) matched)
        ∧ ∀ b', c.admit? f b = some b' → .endless ∉ onward b' := by
  rw [choose, endless_notMem_attempt_iff]
  refine and_congr_right fun _ => ?_
  simp only [PatternCondition.admit?_eq_some_iff]
  cases c.factName with
  | none => simp [endless_notMem_guarded_iff]
  | some name =>
    constructor
    · intro quiet
      refine ⟨fun matched name' found named => ?_, fun b' admitted => ?_⟩
      · obtain rfl := Option.some.inj named
        exact (endless_notMem_attempt_iff.mp (quiet _ found)).1
      · obtain ⟨⟨matched, found, names⟩, hold⟩ := admitted
        obtain ⟨named, agrees, rfl⟩ := PatternCondition.names_some_iff.mp names
        have onwards := (endless_notMem_attempt_iff.mp (quiet _ found)).2 _ agrees
        exact endless_notMem_guarded_iff.mp onwards hold
    · intro returns matched found
      obtain ⟨ends, further⟩ := returns
      refine endless_notMem_attempt_iff.mpr ⟨ends _ _ found rfl, fun named agrees => ?_⟩
      exact endless_notMem_guarded_iff.mpr fun hold =>
        further _ ⟨⟨_, found, .named agrees⟩, hold⟩

end Join

/-- Among facts in the order of their identities those in front of the first that fails a test are
the ones that pass it as all do before them.
-/
theorem mem_takeWhile_iff {facts : List Fact}
    (ascending : facts.Pairwise (·.id.number < ·.id.number)) {test : Fact → Bool} {f : Fact}
    : f ∈ facts.takeWhile test
      ↔ f ∈ facts ∧ test f ∧ ∀ g ∈ facts, g.id.number < f.id.number → test g := by
  induction facts with
  | nil => simp
  | cons first rest ih =>
    obtain ⟨above, later⟩ := List.pairwise_cons.mp ascending
    cases passes : test first with
    | false =>
      rw [List.takeWhile_cons_of_neg (by simp [passes])]
      refine ⟨nofun, fun among => ?_⟩
      obtain ⟨member, held, before⟩ := among
      rcases List.mem_cons.mp member with rfl | further
      · simp [passes] at held
      · simp [before first List.mem_cons_self (above f further)] at passes
    | true =>
      rw [List.takeWhile_cons_of_pos passes, List.mem_cons, List.mem_cons, ih later]
      constructor
      · intro among
        rcases among with rfl | ⟨further, held, before⟩
        · refine ⟨.inl rfl, passes, fun g member below => ?_⟩
          rcases List.mem_cons.mp member with rfl | others
          · exact passes
          · exact absurd (above g others) (Nat.lt_asymm below)
        · exact ⟨.inr further, held, List.forall_mem_cons.mpr ⟨fun _ => passes, before⟩⟩
      · intro among
        obtain ⟨rfl | further, held, before⟩ := among
        · exact .inl rfl
        · exact .inr ⟨further, held, fun g others => before g (List.mem_cons_of_mem _ others)⟩

namespace Store

variable {s : Store}

/-- What is aggregated are the stored facts of a kind that match. -/
theorem Coherent.filter_factsOfKind (coherent : s.Coherent) (kind : String) (p : Pattern)
    (b : Bindings)
    : (s.factsOfKind kind).filter (p.accepts · b) = s.matching kind p b := by
  rw [coherent.filed, List.filter_filter, matching]
  exact List.filter_congr fun f _ => Bool.and_comm _ _

/-- No stored fact of a kind matches exactly if none of those that are looked at is accepted. -/
theorem Coherent.any_accepts_eq_false_iff (coherent : s.Coherent) {kind : String} {p : Pattern}
    {b : Bindings}
    : (s.factsOfKind kind).any (p.accepts · b) = false
      ↔ ∀ f ∈ s.facts, f.kind = kind → ¬∃ bound, p.Matches (.fact f) b bound := by
  simp only [List.any_eq_false, coherent.mem_factsOfKind, Pattern.accepts_iff, and_imp]

/-- The facts of a kind in front of the first that matches are those that do not, as none does
before them.
-/
theorem Coherent.mem_takeWhile_accepts_iff (coherent : s.Coherent) {kind : String} {p : Pattern}
    {b : Bindings} {f : Fact}
    : f ∈ (s.factsOfKind kind).takeWhile (!p.accepts · b)
      ↔ (f ∈ s.facts ∧ f.kind = kind) ∧ (¬∃ bound, p.Matches (.fact f) b bound)
        ∧ ∀ g ∈ s.facts, g.kind = kind → g.id.number < f.id.number →
          ¬∃ bound, p.Matches (.fact g) b bound := by
  rw [mem_takeWhile_iff (coherent.ascending_factsOfKind kind), coherent.mem_factsOfKind]
  simp only [coherent.mem_factsOfKind, Bool.not_eq_true', ← Bool.not_eq_true,
    Pattern.accepts_iff, and_imp]

variable {b : Bindings} {rest : List Condition}

/-- A join of no conditions tries nothing. -/
theorem joinReturns_nil : s.JoinReturns [] b := nofun

/-- A candidate is matched, then its name, and then the join goes on with what it leaves. -/
theorem joinReturns_pattern_iff {c : PatternCondition}
    : s.JoinReturns (.pattern c :: rest) b
      ↔ ∀ f ∈ s.facts, f.kind = c.kind →
          c.pattern.Ends (.fact f) b
          ∧ (∀ matched name, c.pattern.Matches (.fact f) b matched → c.factName = some name →
            (Pattern.varNamed name).Ends (.fact f) matched)
          ∧ ∀ b', c.MetBy f b b' → s.JoinReturns rest b' := by
  constructor
  · intro returns f stored kind
    exact ⟨returns _ _ _ (.candidate stored kind),
      fun _ _ matched named => returns _ _ _ (.name stored kind matched named),
      fun _ met _ _ _ tried => returns _ _ _ (.chosen stored met tried)⟩
  · intro returns p v d tried
    cases tried with
    | candidate stored kind => exact (returns _ stored kind).1
    | name stored kind matched named => exact (returns _ stored kind).2.1 _ _ matched named
    | chosen stored met onward => exact (returns _ stored met.kind).2.2 _ met _ _ _ onward

/-- All facts of the kind are matched, then what they come to, and then the join goes on. -/
theorem joinReturns_accumulate_iff {c : AccumulateCondition}
    : s.JoinReturns (.accumulate c :: rest) b
      ↔ (∀ f ∈ s.facts, f.kind = c.kind → c.pattern.Ends (.fact f) b)
        ∧ (Pattern.var c.target).Ends (c.accumulator.apply (s.matching c.kind c.pattern b)) b
        ∧ ∀ b', (Pattern.var c.target).Matches
            (c.accumulator.apply (s.matching c.kind c.pattern b)) b b' →
          s.JoinReturns rest b' := by
  constructor
  · intro returns
    exact ⟨fun _ stored kind => returns _ _ _ (.counted stored kind), returns _ _ _ .aggregate,
      fun _ agrees _ _ _ tried => returns _ _ _ (.accumulated agrees tried)⟩
  · intro returns p v d tried
    obtain ⟨counted, aggregate, further⟩ := returns
    cases tried with
    | counted stored kind => exact counted _ stored kind
    | aggregate => exact aggregate
    | accumulated agrees onward => exact further _ agrees _ _ _ onward

/-- Facts are matched up to the first that does, and without one the join goes on. -/
theorem joinReturns_lacks_iff {c : LacksCondition}
    : s.JoinReturns (.lacks c :: rest) b
      ↔ (∀ f ∈ s.facts, f.kind = c.kind →
          (∀ g ∈ s.facts, g.kind = c.kind → g.id.number < f.id.number →
            ¬∃ bound, c.pattern.Matches (.fact g) b bound) →
          c.pattern.Ends (.fact f) b)
        ∧ ((∀ f ∈ s.facts, f.kind = c.kind → ¬∃ bound, c.pattern.Matches (.fact f) b bound) →
          s.JoinReturns rest b) := by
  constructor
  · intro returns
    exact ⟨fun _ stored kind before => returns _ _ _ (.unwanted stored kind before),
      fun absent _ _ _ tried => returns _ _ _ (.lacking absent tried)⟩
  · intro returns p v d tried
    obtain ⟨unwanted, further⟩ := returns
    cases tried with
    | unwanted stored kind before => exact unwanted _ stored kind before
    | lacking absent onward => exact further absent _ _ _ onward

/-- A join comes to its end exactly if its steps mark nothing, by induction on the conditions. -/
theorem Coherent.joinReturns_iff (coherent : s.Coherent) {conditions : List Condition}
    : s.JoinReturns conditions b ↔ .endless ∉ Join.steps s.factsOfKind conditions b := by
  induction conditions generalizing b with
  | nil => exact iff_of_true joinReturns_nil (by simp [Join.steps])
  | cons condition rest ih =>
    cases condition with
    | pattern c =>
      rw [joinReturns_pattern_iff, Join.steps]
      simp only [List.mem_flatMap, not_exists, not_and, Join.endless_notMem_choose_iff,
        coherent.mem_factsOfKind, and_imp, PatternCondition.metBy_iff, ih]
      refine forall₃_congr fun f stored kind => ?_
      simp only [kind, forall_const]
    | accumulate c =>
      rw [joinReturns_accumulate_iff, Join.steps, Join.aggregate, coherent.filter_factsOfKind]
      simp only [List.mem_append, not_or, Join.endless_notMem_probe_iff,
        Join.endless_notMem_attempt_iff, coherent.mem_factsOfKind, and_imp, ih]
    | lacks c =>
      rw [joinReturns_lacks_iff, Join.steps, List.mem_append, not_or,
        Join.endless_notMem_probe_iff]
      refine and_congr ?_ ?_
      · simp only [coherent.mem_takeWhile_accepts_iff, and_imp]
        refine forall₃_congr fun f stored kind => ⟨fun ends _ before => ends before, ?_⟩
        intro ends before
        by_cases matched : ∃ bound, c.pattern.Matches (.fact f) b bound
        · exact matched.elim fun _ found => ⟨_, found⟩
        · exact ends matched before
      · rw [← coherent.any_accepts_eq_false_iff]
        cases (s.factsOfKind c.kind).any (c.pattern.accepts · b) with
        | true => simp
        | false => simp [ih]

end Store

namespace Engine

variable {ν : Type}

/-- What is reported of a join shows the marks of its steps, by induction. -/
theorem returns_reportFaults_iff {definition : String} {steps : List JoinStep} {e : Engine ν}
    : ((reportFaults definition steps).run e).Returns ↔ .endless ∉ steps := by
  induction steps generalizing e with
  | nil => exact iff_of_true (EngineM.returns_pure e ()) nofun
  | cons step rest ih =>
    rw [List.mem_cons, not_or]
    cases step with
    | found m => exact ih.trans (and_iff_right nofun).symm
    | fault guard failure =>
      rw [reportFaults, EngineM.returns_bind]
      exact and_congr (iff_of_true (EngineM.returns_emit e _) nofun) ih
    | endless =>
      rw [reportFaults, EngineM.returns_bind]
      exact iff_of_false (EngineM.not_returns_endless e ·.1) (·.1 rfl)

/-- An engine that joins up to a limit comes to its end if no match without an end is marked before
the limit is reached.
-/
theorem returns_matchesFor_iff {definition : String} {conditions : List Condition} {b : Bindings}
    {limit : Option Nat} {e : Engine ν}
    : ((matchesFor definition conditions b limit).run e).Returns
      ↔ .endless ∉ Join.upTo limit (Join.steps e.store.factsOfKind conditions b) := by
  unfold matchesFor
  rw [EngineM.returns_bind, EngineM.returns_bind, returns_reportFaults_iff]
  simp [Ran.Returns]

/-- Without a limit an engine comes to the end of a join exactly if every match that is tried
ends.
-/
theorem returns_matchesFor_none_iff {definition : String} {conditions : List Condition}
    {b : Bindings} {e : Engine ν} (coherent : e.store.Coherent)
    : ((matchesFor definition conditions b none).run e).Returns
      ↔ e.store.JoinReturns conditions b :=
  returns_matchesFor_iff.trans coherent.joinReturns_iff.symm

/-- A limit only leaves out matches that would be tried. -/
theorem returns_matchesFor_of_none {definition : String} {conditions : List Condition}
    {b : Bindings} {e : Engine ν}
    (returns : ((matchesFor definition conditions b none).run e).Returns) (limit : Option Nat)
    : ((matchesFor definition conditions b limit).run e).Returns :=
  returns_matchesFor_iff.mpr fun marked =>
    returns_matchesFor_iff.mp returns ((Join.upTo_prefix limit _).subset marked)

end Engine

end RuleEngine
