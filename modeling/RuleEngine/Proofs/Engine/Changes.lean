import RuleEngine.Proofs.Engine.Replay
import RuleEngine.Proofs.Schema.Validation

/-! Changes of facts are made as a whole or not at all. Validation comes first and is all that can
fail: a valid record names a kind, so it can be stored once the fact that it replaces is gone. This
is shown for engines with a coherent store, as all engines have: between two tasks
(`History.accounted`), and within the bodies of rules, which do nothing but edits
(`Recorded.edits`).
-/

namespace RuleEngine

namespace Engine

variable {ν : Type}

/-- A change of facts leaves everything else as it is, the schemas apart, which count the uses of
defaults.
-/
structure Frame (e : Engine ν) (registry : Registry) (e' : Engine ν) : Prop where
  registry : e'.registry = registry
  definitions : e'.definitions = e.definitions
  nextActivation : e'.nextActivation = e.nextActivation
  config : e'.config = e.config

/-- A record was stored as a fact `f`, in the place of the fact that is `gone` if there is one. -/
structure Changed (e : Engine ν) (registry : Registry) (r : Record) (origin : Origin)
    (gone : Option Fact) (f : Fact) (e' : Engine ν) : Prop extends Frame e registry e' where
  fresh : f.id = ⟨e.store.next⟩
  larger : ∀ entry ∈ e.store.entries, entry.id.number < f.id.number
  fields : f.fields = r
  kind : r.get? Fact.kindField = some (.string f.kind)
  entries : e'.store.entries
    = e.store.entries.filter (fun entry => gone.all (entry.id != ·.id)) ++ [⟨f, origin⟩]
  next : e'.store.next = e.store.next + 1
  coherent : e'.store.Coherent
  agenda : e'.agenda.tasks
    = e.agenda.tasks ++ gone.toList.map (⟨.retracted, ·⟩) ++ [⟨.asserted, f⟩]
  tracked : e'.tracked = noteOrigin origin f.id e.tracked

/-- What comes of the attempt to store a record, in the place of a fact that is to go if there is
one. Validation refuses the record, or it gives the record that is stored.
-/
inductive AllOrNothing (e : Engine ν) (r : Record) (origin : Origin) (gone : Option Fact)
    : Ran ν (Except Failure Fact) → Prop where
  | refused {failure : Failure} {registry : Registry}
    (invalid : validateIn e.registry r = (.error failure, registry))
    : AllOrNothing e r origin gone
        ⟨.error failure, { e with registry }, [.event (.schemaError failure)]⟩
  | stored {r' : Record} {registry : Registry} {f : Fact} {e' : Engine ν} {out : List (Output ν)}
    (valid : validateIn e.registry r = (.ok r', registry))
    (changed : Changed e registry r' origin gone f e')
    : AllOrNothing e r origin gone ⟨.ok f, e', out⟩

namespace AllOrNothing

variable {e : Engine ν} {r : Record} {origin : Origin} {gone : Option Fact}
  {ran : Ran ν (Except Failure Fact)}

/-- An attempt that succeeds changed everything. -/
theorem changed_of_isOk (attempt : AllOrNothing e r origin gone ran) (succeeds : ran.result.isOk)
    : ∃ r' registry f e' out, ran = ⟨.ok f, e', out⟩
        ∧ validateIn e.registry r = (.ok r', registry)
        ∧ Changed e registry r' origin gone f e' := by
  cases attempt with
  | refused invalid => cases succeeds
  | stored valid changed => exact ⟨_, _, _, _, _, rfl, valid, changed⟩

/-- An attempt that fails changed nothing but the schemas. -/
theorem refused_of_not_isOk (attempt : AllOrNothing e r origin gone ran)
    (fails : ran.result.isOk = false)
    : ∃ failure registry,
        ran = ⟨.error failure, { e with registry }, [.event (.schemaError failure)]⟩ := by
  cases attempt with
  | refused invalid => exact ⟨_, _, rfl⟩
  | stored valid changed => cases fails

end AllOrNothing

-- --------------------------------------------------------------------------------------
-- Validation
-- --------------------------------------------------------------------------------------

/-- A record that is valid names a kind, because it did so before. -/
theorem kindOf?_validateIn {g g' : Registry} {r r' : Record}
    (valid : validateIn g r = (.ok r', g'))
    : ∃ kind, Store.kindOf? r' = some kind := by
  unfold validateIn at valid
  split at valid
  · cases valid
  · rename_i kind named
    exact ⟨kind, Registry.kindOf?_validate (congrArg Prod.fst valid) named⟩

/-- Every store takes a valid record. -/
theorem assert_validateIn {g g' : Registry} {r r' : Record}
    (valid : validateIn g r = (.ok r', g')) (s : Store) (origin : Origin)
    : ∃ entry s', s.assert r' origin = .ok (entry, s') := by
  obtain ⟨kind, named⟩ := kindOf?_validateIn valid
  exact ⟨_, _, s.assert_of_kindOf? named origin⟩

/-- Whatever stores a valid record is all or nothing after validation, which refuses before anything
changes.
-/
theorem AllOrNothing.afterValidation {e : Engine ν} {origin : Origin} {gone : Option Fact}
    {storing : Record → EngineM ν (Except Failure Fact)}
    (stores : ∀ {registry r' kind}, Store.kindOf? r' = some kind →
      ∃ f e' out, (storing r').run { e with registry } = ⟨.ok f, e', out⟩
        ∧ Changed e registry r' origin gone f e')
    (r : Record)
    : AllOrNothing e r origin gone
        (EngineM.run
          (do
            match ← validate r with
            | .error failure => return .error failure
            | .ok r => storing r)
          e) := by
  cases validated : validateIn e.registry r with
  | mk result registry =>
    cases result with
    | error failure => simpa [validate, validated] using .refused validated
    | ok r' =>
      obtain ⟨kind, named⟩ := kindOf?_validateIn validated
      obtain ⟨f, e', out, run, changed⟩ := stores named
      have stored : AllOrNothing e r origin gone ⟨.ok f, e', out⟩ := .stored validated changed
      simpa [validate, validated, ← run] using stored

-- --------------------------------------------------------------------------------------
-- Taking out and storing
-- --------------------------------------------------------------------------------------

/-- The fact that is to go is gone, if there is one, and nothing came yet. -/
structure Cleared (e : Engine ν) (registry : Registry) (gone : Option Fact) (e' : Engine ν) : Prop
    extends Frame e registry e' where
  entries : e'.store.entries = e.store.entries.filter fun entry => gone.all (entry.id != ·.id)
  next : e'.store.next = e.store.next
  coherent : e'.store.Coherent
  agenda : e'.agenda.tasks = e.agenda.tasks ++ gone.toList.map (⟨.retracted, ·⟩)
  tracked : e'.tracked = e.tracked

variable {e : Engine ν} (coherent : e.store.Coherent)

include coherent

/-- No fact goes. -/
theorem Cleared.none (registry : Registry) : Cleared e registry none { e with registry } where
  toFrame := ⟨rfl, rfl, rfl, rfl⟩
  entries := (List.filter_eq_self.mpr fun _ _ => rfl).symm
  next := rfl
  coherent := coherent
  agenda := (List.append_nil _).symm
  tracked := rfl

/-- A stored fact goes. -/
theorem Cleared.retract (registry : Registry) {id : FactId} {old : Fact}
    (found : e.store.fact? id = some old)
    : Cleared e registry old ((Engine.retract id).run { e with registry }).engine := by
  obtain ⟨entry, stored, rfl⟩ := Option.map_eq_some_iff.mp found
  have here : entry.fact.id = id := (coherent.entry?_eq_some_iff.mp stored).2
  have taken : e.store.retract? id
      = some (entry, ⟨e.store.entries.filter (·.id != id),
          KindIndex.unfile entry.fact e.store.index, e.store.next⟩) := by
    rw [Store.retract?, stored]
    rfl
  simp only [Engine.retract, EngineM.run_bind, EngineM.run_get, taken, EngineM.run_modify,
    EngineM.run_emit, EngineM.run_schedule, EngineM.run_pure]
  exact
    { toFrame := ⟨rfl, rfl, rfl, rfl⟩
      entries := by simp [here]
      next := rfl
      coherent := coherent.retract taken
      agenda := rfl
      tracked := rfl }

/-- A record that names a kind is stored once the fact that is to go is gone. -/
theorem Cleared.store {registry : Registry} {gone : Option Fact} {between : Engine ν}
    (cleared : Cleared e registry gone between) {r : Record} {kind : String}
    (named : Store.kindOf? r = some kind) (origin : Origin)
    : ∃ f e' out, (storeFact r origin).run between = ⟨.ok f, e', out⟩
        ∧ Changed e registry r origin gone f e' := by
  have asserted := between.store.assert_of_kindOf? named origin
  simp only [storeFact, EngineM.run_bind, EngineM.run_get, asserted, EngineM.run_modify,
    EngineM.run_emit, EngineM.run_schedule, EngineM.run_pure]
  refine ⟨_, _, _, rfl, ?_⟩
  exact
    { toFrame := ⟨cleared.registry, cleared.definitions, cleared.nextActivation, cleared.config⟩
      fresh := congrArg FactId.mk cleared.next
      larger := fun entry member => cleared.next ▸ coherent.issued entry member
      fields := rfl
      kind := (Store.kindOf?_eq_some_iff.mp named).1
      entries := by simp [cleared.entries]
      next := by simp [cleared.next]
      coherent := cleared.coherent.assert asserted
      agenda := by simp [Agenda.push, cleared.agenda]
      tracked := by simp [cleared.tracked, Entry.id] }

/-- A record is stored as a whole or not at all. -/
theorem insert_allOrNothing (r : Record) (origin : Origin)
    : AllOrNothing e r origin none ((insert r origin).run e) :=
  .afterValidation (fun named => (Cleared.none coherent _).store coherent named origin) r

/-- A stored fact is replaced as a whole or not at all. -/
theorem replace_allOrNothing {id : FactId} {old : Fact} (found : e.store.fact? id = some old)
    (r : Record)
    : AllOrNothing e r .stated (some old) ((replace id r).run e) := by
  refine .afterValidation (fun {registry r' kind} named => ?_) r
  obtain ⟨f, e', out, run, changed⟩ :=
    (Cleared.retract coherent registry found).store coherent named .stated
  exact ⟨f, e', _, by rw [EngineM.run_bind, run], changed⟩

/-- Every change of facts is made as a whole or not at all. An assertion adds one fact. A change of
a stored fact puts another in its place, which is stated; of a fact that is not stored it leaves
everything as it was. What validation lets through can be stored in every store, so a replacement
does not fail half-way.
-/
theorem changes_allOrNothing (c : Context)
    : (∀ r, AllOrNothing e r .stated none ((assert r).run e))
      ∧ (∀ r, AllOrNothing e r (.logical c.activation) none
          (((Request.assertLogical r).perform c).run e))
      ∧ (∀ name payload, AllOrNothing e
          (.ofList
            [(Fact.kindField, .string eventKind), ("name", .string name), ("payload", payload)])
          .stated none (((Request.publish name payload).perform c).run e))
      ∧ (∀ id, e.store.fact? id = none → ∀ r,
          (modify id r).run e = ⟨.error (.factNotFound id), e, []⟩
          ∧ (update id r).run e = ⟨.error (.factNotFound id), e, []⟩)
      ∧ (∀ id old, e.store.fact? id = some old → old.id = id ∧ ∀ r,
          AllOrNothing e (old.fields.overlay r) .stated (some old) ((modify id r).run e)
          ∧ AllOrNothing e
              (if r.contains Fact.kindField then r
                else r.insert Fact.kindField (.string old.kind))
              .stated (some old) ((update id r).run e))
      ∧ ∀ g g' r r', validateIn g r = (.ok r', g') → ∀ (s : Store) origin,
          ∃ entry s', s.assert r' origin = .ok (entry, s') := by
  refine ⟨fun r => insert_allOrNothing coherent r .stated,
    fun r => insert_allOrNothing coherent r _,
    fun name payload => insert_allOrNothing coherent _ .stated, ?_, ?_,
    fun g g' r r' valid => assert_validateIn valid⟩
  · intro id unknown r
    simp [modify, update, unknown]
  · intro id old found
    obtain ⟨entry, stored, rfl⟩ := Option.map_eq_some_iff.mp found
    refine ⟨(coherent.entry?_eq_some_iff.mp stored).2, fun r => ⟨?_, ?_⟩⟩
    · simpa [modify, found] using replace_allOrNothing coherent found _
    · simpa [update, found] using replace_allOrNothing coherent found _

end Engine

namespace Sample

open Engine

/-- The schema of orders, with a default for the kind, which is never used. -/
def orders : Schema where
  kind := "Order"
  fields :=
    [⟨Fact.kindField, .any, true, some (.value .null), none⟩,
      ⟨"status", .string, true, some (.value (.string "new")), none⟩]

/-- An engine in which an order was asserted. -/
def ordered : Ran Unit Unit :=
  EngineM.run
    (do
      (Operation.register orders).perform
      (Operation.assert (recordOf "Order")).perform)
    (.ofConfig {})

/-- The order with its status filled in. -/
def order : Fact := .ofRecord ⟨1⟩ "Order" (.ofList [("status", .string "new")])

/-- An order whose status is set to undefined is replaced by one with the status of new orders. If
its status is set to null, the change is refused and the order stays.
-/
theorem ordered_allOrNothing
    : (∃ f e' out, (modify ⟨1⟩ (.ofList [("status", .undefined)])).run ordered.engine
          = ⟨.ok f, e', out⟩
        ∧ e'.store.entries = [⟨f, .stated⟩] ∧ f.id = ⟨2⟩
        ∧ e'.agenda.tasks = [⟨.asserted, order⟩, ⟨.retracted, order⟩, ⟨.asserted, f⟩])
      ∧ ∃ failure registry, (modify ⟨1⟩ (.ofList [("status", .null)])).run ordered.engine
          = ⟨.error failure, { ordered.engine with registry },
            [.event (.schemaError failure)]⟩ := by
  have registered := (@History.created Unit {}).operated (.register orders)
  have history := registered.operated (.assert (recordOf "Order"))
  have coherent : ordered.engine.store.Coherent := history.accounted.coherent
  obtain ⟨-, -, -, -, stored, -⟩ := changes_allOrNothing coherent ⟨"", ⟨0⟩, .empty⟩
  obtain ⟨-, changes⟩ := stored ⟨1⟩ order rfl
  have reset := (changes (.ofList [("status", .undefined)])).1
  have emptied := (changes (.ofList [("status", .null)])).1
  obtain ⟨r, registry, f, e, out, run, -, changed⟩ := reset.changed_of_isOk rfl
  exact ⟨⟨f, e, out, run, changed.entries, changed.fresh, changed.agenda⟩,
    emptied.refused_of_not_isOk rfl⟩

end Sample

end RuleEngine
