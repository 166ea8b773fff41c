import RuleEngine.Proofs.Join.Tuples

/-! The ways to ask a query. Whoever asks for the first row, for whether there is one, or for the
number of rows gets what the rows tell, although the join may have stopped at its first match. But a
join that stops early may also come to its end where the rows never do, because a match that is
tried later runs in circles.
-/

namespace RuleEngine

namespace Query

/-- A row with the fields of a projection. A field that cannot be computed is undefined. -/
def projected (b : Bindings) (fields : List (String × Expr)) (row : Record) : Record :=
  fields.foldl
    (fun row field => row.insert field.1
      (match Engine.projectField field.1 field.2 b with
        | .ok v => v
        | .error _ => .undefined))
    row

/-- The row that a match becomes. -/
def row (q : Query) (m : Match) : Record :=
  match q.projection with
  | none => m.bindings.userVariables
  | some fields => projected m.bindings fields .empty

/-- The rows of a query in a store. -/
def rowsIn (q : Query) (s : Store) (params : Bindings) : List Record :=
  q.shape ((s.join q.conditions params).map q.row)

/-- The shape of a streaming query only cuts off rows at the end, and never all of them. -/
theorem head?_shape_of_isStreaming {q : Query} (streaming : q.isStreaming) (rows : List Record)
    : (q.shape rows).head? = rows.head? := by
  simp only [isStreaming, Bool.and_eq_true, Bool.not_eq_true', Option.isNone_iff_eq_none,
    beq_iff_eq] at streaming
  obtain ⟨⟨keepsAll, unordered⟩, fromStart⟩ := streaming
  simp only [shape, keepsAll, unordered, page, fromStart, List.drop_zero]
  rcases q.limit with _ | _ | limit
  · rfl
  · rfl
  · simp [List.head?_take]

end Query

namespace Engine

variable {ν : Type}

/-- A definition of an engine is a query with this identity. -/
def NamesQuery (e : Engine ν) (id : String) : Prop := ∃ q, .query q ∈ e.definitions ∧ q.id = id

/-- Looking up finds a query with the identity, if there is one. -/
theorem query?_eq_some {e : Engine ν} {id : String} {q : Query} (found : e.query? id = some q)
    : .query q ∈ e.definitions ∧ q.id = id := by
  obtain ⟨d, defined, isQuery⟩ := List.mem_filterMap.mp (List.mem_of_find?_eq_some found)
  refine ⟨?_, by simpa using List.find?_some found⟩
  cases d with
  | rule r => cases isQuery
  | query q' => exact Option.some.inj isQuery ▸ defined

theorem query?_eq_none_iff {e : Engine ν} {id : String}
    : e.query? id = none ↔ ¬e.NamesQuery id := by
  constructor
  · rintro absent ⟨q, defined, same⟩
    have among : q ∈ e.definitions.filterMap (·.query?) :=
      List.mem_filterMap.mpr ⟨.query q, defined, rfl⟩
    simpa [same] using List.find?_eq_none.mp absent q among
  · intro unnamed
    apply Option.eq_none_iff_forall_ne_some.mpr
    intro q found
    exact unnamed ⟨q, query?_eq_some found⟩

-- --------------------------------------------------------------------------------------
-- What queries come to
-- --------------------------------------------------------------------------------------

/-- By induction on the fields. -/
theorem result_project (query : String) (b : Bindings) (fields : List (String × Expr))
    (row : Record) (e : Engine ν)
    : ((project query b fields row).run e).result = Query.projected b fields row := by
  induction fields generalizing row e with
  | nil => rfl
  | cons field rest ih =>
    obtain ⟨name, value⟩ := field
    unfold project
    cases computed : projectField name value b with
    | ok v => simp [ih, Query.projected, computed]
    | error failure => simp [ih, Query.projected, computed]

/-- By induction on the matches. -/
theorem result_projectAll (q : Query) (found : List Match) (e : Engine ν)
    : ((projectAll q found).run e).result = found.map q.row := by
  induction found generalizing e with
  | nil => rfl
  | cons m rest ih =>
    unfold projectAll
    cases projection : q.projection with
    | none => simp [ih, Query.row, projection]
    | some fields => simp [ih, Query.row, projection, result_project]

/-- A query that is found comes to the rows of all matches, or of as many as a limit leaves. -/
theorem result_runQuery {e : Engine ν} {id : String} {q : Query} (found : e.query? id = some q)
    (params : Bindings) (stopAfter : Option Nat)
    : ((runQuery id params stopAfter).run e).result
      = .ok (q.shape ((Join.withinLimit (stopAfter.filter fun _ => q.isStreaming)
          (e.store.join q.conditions params)).map q.row)) := by
  simp [runQuery, found, result_projectAll, result_matchesFor]

theorem result_query {e : Engine ν} {id : String} {q : Query} (found : e.query? id = some q)
    (params : Bindings)
    : ((query id params).run e).result = .ok (q.rowsIn e.store params) :=
  result_runQuery found params none

/-- The first row of the first match is the first row of all matches, if the query is streaming. -/
theorem result_queryFirst {e : Engine ν} {id : String} {q : Query} (found : e.query? id = some q)
    (params : Bindings)
    : ((queryFirst id params).run e).result = .ok (q.rowsIn e.store params).head? := by
  simp only [queryFirst, EngineM.run_bind, result_runQuery found params (some 1), EngineM.run_pure]
  cases streaming : q.isStreaming with
  | false => rfl
  | true =>
    simp [Except.map, Query.rowsIn, Query.head?_shape_of_isStreaming streaming,
      Join.head?_withinLimit]

-- --------------------------------------------------------------------------------------
-- Which queries come to their end
-- --------------------------------------------------------------------------------------

/-- By induction on the fields. -/
theorem returns_project (query : String) (b : Bindings) (fields : List (String × Expr))
    (row : Record) (e : Engine ν)
    : ((project query b fields row).run e).Returns := by
  induction fields generalizing row e with
  | nil => exact EngineM.returns_pure e _
  | cons field rest ih =>
    obtain ⟨name, value⟩ := field
    unfold project
    cases projectField name value b with
    | ok v => exact ih _ e
    | error failure => exact (EngineM.returns_bind ..).mpr ⟨EngineM.returns_emit e _, ih _ e⟩

/-- By induction on the matches. -/
theorem returns_projectAll (q : Query) (found : List Match) (e : Engine ν)
    : ((projectAll q found).run e).Returns := by
  induction found generalizing e with
  | nil => exact EngineM.returns_pure e _
  | cons m rest ih =>
    have others (row : Record) (e : Engine ν) : ((do
        let rows ← projectAll q rest
        return row :: rows : EngineM ν (List Record)).run e).Returns :=
      (EngineM.returns_bind ..).mpr ⟨ih e, EngineM.returns_pure _ _⟩
    unfold projectAll
    cases q.projection with
    | none => exact (EngineM.returns_bind ..).mpr ⟨EngineM.returns_pure _ _, others _ _⟩
    | some fields => exact (EngineM.returns_bind ..).mpr ⟨returns_project _ _ _ _ _, others _ _⟩

/-- A query comes to its end exactly if its join does. -/
theorem returns_runQuery_iff {e : Engine ν} {id : String} {q : Query} (found : e.query? id = some q)
    (params : Bindings) (stopAfter : Option Nat)
    : ((runQuery id params stopAfter).run e).Returns
      ↔ ((matchesFor q.id q.conditions params (stopAfter.filter fun _ => q.isStreaming)).run
          e).Returns := by
  unfold runQuery
  rw [EngineM.returns_look, found]
  simp only [EngineM.returns_bind, EngineM.returns_emit, EngineM.returns_pure,
    returns_projectAll, and_true, true_and]
  rfl

/-- Without a query of that name there is nothing to ask. -/
theorem yields_runQuery_of_unnamed {e : Engine ν} {id : String} (unnamed : ¬e.NamesQuery id)
    (params : Bindings) (stopAfter : Option Nat)
    : (runQuery id params stopAfter).Yields e (.error (.unknownDefinition id)) := by
  have absent := query?_eq_none_iff.mpr unnamed
  constructor
  · unfold runQuery
    rw [EngineM.returns_look, absent]
    exact (EngineM.returns_bind ..).mpr ⟨EngineM.returns_emit _ _, EngineM.returns_pure _ _⟩
  · simp [runQuery, absent]

/-- Whoever asks for the first row has run the query so far that it is known. -/
theorem returns_queryFirst_iff {id : String} {params : Bindings} {e : Engine ν}
    : ((queryFirst id params).run e).Returns ↔ ((runQuery id params (some 1)).run e).Returns :=
  (EngineM.returns_bind ..).trans (and_iff_left (EngineM.returns_pure _ _))

theorem returns_queryExists_iff {id : String} {params : Bindings} {e : Engine ν}
    : ((queryExists id params).run e).Returns ↔ ((queryFirst id params).run e).Returns :=
  (EngineM.returns_bind ..).trans (and_iff_left (EngineM.returns_pure _ _))

theorem returns_queryCount_iff {id : String} {params : Bindings} {e : Engine ν}
    : ((queryCount id params).run e).Returns ↔ ((query id params).run e).Returns :=
  (EngineM.returns_bind ..).trans (and_iff_left (EngineM.returns_pure _ _))

/-- The join for the first row of a streaming query is the only one that stops early. -/
theorem returns_queryFirst_iff_of_named {e : Engine ν} {id : String} {q : Query}
    (found : e.query? id = some q) (params : Bindings)
    : ((queryFirst id params).run e).Returns
      ↔ if q.isStreaming then
          .endless ∉ Join.untilFound 1 (Join.steps e.store.factsOfKind q.conditions params)
        else ((query id params).run e).Returns := by
  rw [returns_queryFirst_iff, query, returns_runQuery_iff found, returns_runQuery_iff found]
  cases q.isStreaming with
  | false => rfl
  | true => exact returns_matchesFor_iff

/-- What comes to its end with all rows comes to its end with the first. -/
theorem returns_queryFirst_of_query {e : Engine ν} {id : String} {params : Bindings}
    (returns : ((query id params).run e).Returns)
    : ((queryFirst id params).run e).Returns := by
  rw [returns_queryFirst_iff]
  cases found : e.query? id with
  | none => exact (yields_runQuery_of_unnamed (query?_eq_none_iff.mp found) params _).1
  | some q =>
    exact (returns_runQuery_iff found params _).mpr
      (returns_matchesFor_of_none ((returns_runQuery_iff found params none).mp returns) _)

/-- The ways to ask a query agree where the query comes to its end with its rows. The number of rows
is that of these rows, the first row is the first of them, if there is one, and there is one exactly
if the number is positive. All of them succeed if the identity names a query, whose rows they tell
of, and otherwise all of them fail because it does not.

The query comes to its end, and so does the number of its rows, exactly if every match that its join
tries has an outcome. The first row, and whether there is one, may be known although this is not so:
of a streaming query only the matches up to the first that is found must have one.
-/
theorem query_paths_agree (e : Engine ν) (id : String) (params : Bindings)
    : (∀ rows, (query id params).Yields e (.ok rows) →
        (queryFirst id params).Yields e (.ok rows.head?)
          ∧ (queryCount id params).Yields e (.ok rows.length)
          ∧ (queryExists id params).Yields e (.ok (decide (0 < rows.length))))
      ∧ (((queryCount id params).run e).Returns ↔ ((query id params).run e).Returns)
      ∧ (((queryExists id params).run e).Returns ↔ ((queryFirst id params).run e).Returns)
      ∧ (∀ first, (queryFirst id params).Yields e (.ok first) →
        (queryExists id params).Yields e (.ok first.isSome))
      ∧ (e.NamesQuery id → ∃ q, .query q ∈ e.definitions ∧ q.id = id
        ∧ (((query id params).run e).Returns →
          (query id params).Yields e (.ok (q.rowsIn e.store params)))
        ∧ (((queryFirst id params).run e).Returns →
          (queryFirst id params).Yields e (.ok (q.rowsIn e.store params).head?))
        ∧ (e.store.Built →
          (((query id params).run e).Returns ↔ e.store.JoinReturns q.conditions params))
        ∧ (((queryFirst id params).run e).Returns
          ↔ if q.isStreaming then
              .endless ∉ Join.untilFound 1 (Join.steps e.store.factsOfKind q.conditions params)
            else ((query id params).run e).Returns))
      ∧ (¬e.NamesQuery id →
        (query id params).Yields e (.error (.unknownDefinition id))
        ∧ (queryFirst id params).Yields e (.error (.unknownDefinition id))
        ∧ (queryExists id params).Yields e (.error (.unknownDefinition id))
        ∧ (queryCount id params).Yields e (.error (.unknownDefinition id))) := by
  have exists_of_first (first : Option Record)
      (yields : (queryFirst id params).Yields e (.ok first))
      : (queryExists id params).Yields e (.ok first.isSome) := by
    refine ⟨returns_queryExists_iff.mpr yields.1, ?_⟩
    simp [queryExists, yields.2, Except.map]
  refine ⟨fun rows yields => ?_, returns_queryCount_iff, returns_queryExists_iff, exists_of_first,
    fun named => ?_, fun unnamed => ?_⟩
  · have first : (queryFirst id params).Yields e (.ok rows.head?) := by
      refine ⟨returns_queryFirst_of_query yields.1, ?_⟩
      cases found : e.query? id with
      | none =>
        have fails := (yields_runQuery_of_unnamed (query?_eq_none_iff.mp found) params none).2
        exact absurd (yields.2.symm.trans fails) nofun
      | some q =>
        obtain rfl := Except.ok.inj (yields.2.symm.trans (result_query found params))
        exact result_queryFirst found params
    refine ⟨first, ⟨returns_queryCount_iff.mpr yields.1, ?_⟩, ?_⟩
    · simp [queryCount, yields.2, Except.map]
    · have positive : rows.head?.isSome = decide (0 < rows.length) := by cases rows <;> simp
      exact positive ▸ exists_of_first _ first
  · cases found : e.query? id with
    | none => exact absurd named (query?_eq_none_iff.mp found)
    | some q =>
      obtain ⟨defined, same⟩ := query?_eq_some found
      refine ⟨q, defined, same, fun returns => ⟨returns, result_query found params⟩,
        fun returns => ⟨returns, result_queryFirst found params⟩, fun built => ?_,
        returns_queryFirst_iff_of_named found params⟩
      exact (returns_runQuery_iff found params none).trans
        (returns_matchesFor_none_iff built.coherent)
  · have fails := yields_runQuery_of_unnamed unnamed params
    have first : (queryFirst id params).Yields e (.error (.unknownDefinition id)) :=
      ⟨returns_queryFirst_iff.mpr (fails _).1, by simp [queryFirst, (fails _).2, Except.map]⟩
    refine ⟨fails none, first, ⟨returns_queryExists_iff.mpr first.1, ?_⟩,
      ⟨returns_queryCount_iff.mpr (fails none).1, ?_⟩⟩
    · simp [queryExists, first.2, Except.map]
    · simp [queryCount, query, (fails none).2, Except.map]

end Engine

namespace Sample

open Engine

/-- The levels of all readings. A limit of zero is no limit. -/
def levels : Query where
  id := "levels"
  conditions := [.matching "Reading" (.record [("level", .varNamed "a")]) none []]
  limit := some 0

/-- An engine with two readings and the query for their levels. -/
def asked : Engine Unit where
  store := [levelOf "Reading" "low", levelOf "Place" "low", levelOf "Reading" "high"].foldl state {}
  definitions := [.query levels]

/-- There are two levels, the first of which is asked for; a misspelt query is no query. -/
theorem levels_agree
    : (queryCount "levels" .empty).Yields asked (.ok 2)
      ∧ (queryExists "levels" .empty).Yields asked (.ok true)
      ∧ (queryFirst "levels" .empty).Yields asked (.ok (levels.rowsIn asked.store .empty).head?)
      ∧ (queryFirst "level" .empty).Yields asked (.error (.unknownDefinition "level")) := by
  obtain ⟨agree, -, -, -, succeeds, -⟩ := query_paths_agree asked "levels" .empty
  obtain ⟨-, -, -, -, -, fails⟩ := query_paths_agree asked "level" .empty
  have unnamed : ¬asked.NamesQuery "level" := by
    rintro ⟨q, defined, same⟩
    obtain rfl : q = levels := by simpa [asked] using defined
    simp [levels] at same
  obtain ⟨q, defined, -, rows, -⟩ := succeeds ⟨levels, by simp [asked], rfl⟩
  obtain rfl : q = levels := by simpa [asked] using defined
  obtain ⟨first, count, positive⟩ := agree _ (rows (by decide +kernel))
  have two : (levels.rowsIn asked.store .empty).length = 2 := by decide +kernel
  rw [two] at count positive
  exact ⟨count, positive, first, (fails unnamed).2.1⟩

/-- An engine with a reading that matches, and behind it one whose match never ends. -/
def askedTangled : Engine Unit where
  store := [plain, tangled].foldl state {}
  definitions := [.query { id := "tagged", conditions := tagged }]

/-- The first row of the tagged readings is there, but neither all rows nor their number ever
are.
-/
theorem tangled_disagree
    : (∃ row, (queryFirst "tagged" .empty).Yields askedTangled (.ok (some row)))
      ∧ (queryExists "tagged" .empty).Yields askedTangled (.ok true)
      ∧ ¬((query "tagged" .empty).run askedTangled).Returns
      ∧ ¬((queryCount "tagged" .empty).run askedTangled).Returns := by
  refine ⟨?_, ⟨by decide +kernel, ?_⟩, by decide +kernel, by decide +kernel⟩
  · have known : ((queryFirst "tagged" .empty).run askedTangled).result.toOption.join.isSome := by
      decide +kernel
    cases answered : ((queryFirst "tagged" .empty).run askedTangled).result with
    | error failure => simp [answered, Except.toOption] at known
    | ok first =>
      cases first with
      | none => simp [answered, Except.toOption] at known
      | some row => exact ⟨row, by decide +kernel, answered⟩
  · have known
        : ((queryExists "tagged" .empty).run askedTangled).result.toOption = some true := by
      decide +kernel
    cases answered : ((queryExists "tagged" .empty).run askedTangled).result with
    | error failure => simp [answered, Except.toOption] at known
    | ok found => simpa [answered, Except.toOption] using known

end Sample

end RuleEngine
