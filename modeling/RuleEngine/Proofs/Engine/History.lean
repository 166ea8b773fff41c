import RuleEngine.Proofs.Engine.Tasks

/-! Histories of an engine: every state that operations and runs lead to, at every point between
two tasks. A history keeps what was put out, and which tasks were dealt with completely.
-/

namespace RuleEngine

/-- What is done to an engine from outside, runs and resets apart. -/
inductive Operation (ν : Type) where
  | register (s : Schema)
  | assert (r : Record)
  | retract (id : FactId)
  | modify (id : FactId) (changes : Record)
  | update (id : FactId) (r : Record)
  | retractMatching (kind : String) (p : Pattern)
  | define (d : Definition ν)
  | undefine (id : String)
  | query (id : String) (params : Bindings) (stopAfter : Option Nat)
  /-- State that the bodies of rules share with the outside is changed. -/
  | note (n : ν)

namespace Operation

variable {ν : Type}

/-- Carries out an operation and drops its result. -/
def perform : Operation ν → EngineM ν Unit
  | register s => EngineM.modify (·.register s)
  | assert r => do let _ ← Engine.assert r
  | retract id => do let _ ← Engine.retract id
  | modify id changes => do let _ ← Engine.modify id changes
  | update id r => do let _ ← Engine.update id r
  | retractMatching kind p => do let _ ← Engine.retractMatching kind p
  | define d => do let _ ← Engine.define d
  | undefine id => do let _ ← Engine.undefine id
  | query id params stopAfter => do let _ ← Engine.runQuery id params stopAfter
  | note n => EngineM.note n

/-- Operations do nothing but edits, and justify nothing; by cases on the operation. -/
theorem perform_editsBy (op : Operation ν) : op.perform.EditsBy none := by
  have editing : EngineM.HoldsOfEditing none fun α (m : EngineM ν α) => m.EditsBy none :=
    EngineM.EditsBy.editing
  have dropped {α : Type} {m : EngineM ν α} (edits : m.EditsBy none)
      : (do let _ ← m : EngineM ν Unit).EditsBy none :=
    editing.bind edits fun _ => editing.pure ()
  cases op with
  | register s => exact editing.registry (·.register s)
  | assert r => exact dropped (editing.insert r nofun)
  | retract id => exact dropped (editing.retract id)
  | modify id changes => exact dropped (editing.modify id changes)
  | update id r => exact dropped (editing.update id r)
  | retractMatching kind p => exact dropped (editing.retractMatching kind p)
  | define d => exact dropped (editing.define d)
  | undefine id => exact dropped (editing.undefine id)
  | query id params stopAfter => exact dropped (editing.runQuery id params stopAfter)
  | note n => exact editing.note n

end Operation

/-- The history of an engine since its creation or its last reset, as a point between two tasks:
its state, what was put out, and the tasks that were dealt with completely. A run is a series of
tasks, so a history may stop within one; whether a task may fire depends on the run and is left
open here.
-/
inductive History {ν : Type} : Engine ν → List (Output ν) → List Task → Prop where
  | created (config : Config) : History (.ofConfig config) [] []
  | reset {e : Engine ν} {out : List (Output ν)} {done : List Task} (earlier : History e out done)
    : History e.reset [] []
  | operated {e : Engine ν} {out : List (Output ν)} {done : List Task}
    (earlier : History e out done) (op : Operation ν)
    : History (op.perform.run e).engine (out ++ (op.perform.run e).output) done
  /-- The first task of the agenda is dealt with. -/
  | processed {e e' : Engine ν} {out more : List (Output ν)} {done : List Task} {t : Task}
    {agenda : Agenda} {mayFire : Bool} {fired : Option Fired} (earlier : History e out done)
    (taken : e.agenda.next? = some (t, agenda))
    (dealt : (Engine.process t mayFire).run { e with agenda } = ⟨.ok fired, e', more⟩)
    : History e' (out ++ more) (done ++ [t])
  /-- The limit stops the run at the first task of the agenda. -/
  | halted {e e' : Engine ν} {out more : List (Output ν)} {done : List Task} {t : Task}
    {agenda : Agenda} {mayFire : Bool} {failure : Failure} (earlier : History e out done)
    (taken : e.agenda.next? = some (t, agenda))
    (dealt : (Engine.process t mayFire).run { e with agenda } = ⟨.error failure, e', more⟩)
    : History e' (out ++ more) done

namespace History

open EngineM

variable {ν : Type} {e : Engine ν} {out : List (Output ν)} {done : List Task}

/-- Going on with a run extends a history by some tasks, by induction on their number. -/
theorem advance (earlier : History e out done) (most : Nat) (r : Run)
    : ∃ more, History ((Engine.advance most r).run e).engine
        (out ++ ((Engine.advance most r).run e).output) (done ++ more) := by
  induction most generalizing e out done r with
  | zero => exact ⟨[], by simpa [Engine.advance] using earlier⟩
  | succ most ih =>
    cases taken : e.agenda.next? with
    | none => exact ⟨[], by simpa [Engine.advance, taken] using earlier⟩
    | some first =>
      obtain ⟨t, agenda⟩ := first
      cases dealt : (Engine.process t (Engine.mayFire e.config r.summary)).run
          { e with agenda } with
      | mk result e' new =>
        cases result with
        | error failure =>
          exact ⟨[], by simpa [Engine.advance, taken, dealt] using earlier.halted taken dealt⟩
        | ok fired =>
          have processed := earlier.processed taken dealt
          cases fired with
          | some f => exact ⟨[t], by simpa [Engine.advance, taken, dealt] using processed⟩
          | none =>
            obtain ⟨more, rest⟩ := ih processed { r with summary := r.summary.countTask }
            exact ⟨t :: more, by simpa [Engine.advance, taken, dealt] using rest⟩

theorem next (earlier : History e out done) (r : Run)
    : ∃ more, History ((Engine.next r).run e).engine (out ++ ((Engine.next r).run e).output)
        (done ++ more) := by
  cases halted : r.halted with
  | true => exact ⟨[], by simpa [Engine.next, halted] using earlier⟩
  | false => simpa [Engine.next, halted] using earlier.advance _ r

/-- A partial run extends a history by some tasks, by induction on its steps. -/
theorem take (earlier : History e out done) (r : Run) (steps : Nat)
    : ∃ more, History ((Engine.take r steps).run e).engine
        (out ++ ((Engine.take r steps).run e).output) (done ++ more) := by
  induction steps generalizing e out done r with
  | zero => exact ⟨[], by simpa [Engine.take] using earlier⟩
  | succ steps ih =>
    obtain ⟨more, step⟩ := earlier.next r
    cases stepped : (Engine.next r).run e with
    | mk result e' new =>
      obtain ⟨progress, r'⟩ := result
      rw [stepped] at step
      obtain ⟨later, rest⟩ := ih step r'
      cases progress with
      | idle => exact ⟨more, by simpa [Engine.take, stepped] using step⟩
      | fired f => exact ⟨more ++ later, by simpa [Engine.take, stepped] using rest⟩
      | halted failure => exact ⟨more ++ later, by simpa [Engine.take, stepped] using rest⟩

/-- A full run extends a history by some tasks, whether it ends, is stopped by the limit or runs
out of patience; by induction on the patience.
-/
theorem complete (earlier : History e out done) (patience : Nat) (r : Run)
    : ∃ more, History ((Engine.complete patience r).run e).engine
        (out ++ ((Engine.complete patience r).run e).output) (done ++ more) := by
  induction patience generalizing e out done r with
  | zero => exact ⟨[], by simpa [Engine.complete] using earlier⟩
  | succ patience ih =>
    obtain ⟨more, step⟩ := earlier.next r
    cases stepped : (Engine.next r).run e with
    | mk result e' new =>
      obtain ⟨progress, r'⟩ := result
      rw [stepped] at step
      cases progress with
      | idle => exact ⟨more, by simpa [Engine.complete, stepped] using step⟩
      | halted failure => exact ⟨more, by simpa [Engine.complete, stepped] using step⟩
      | fired f =>
        obtain ⟨later, rest⟩ := ih step r'
        exact ⟨more ++ later, by simpa [Engine.complete, stepped] using rest⟩

end History

namespace Sample

/-- A record that names its kind and nothing else. -/
def recordOf (kind : String) : Record := .ofList [(Fact.kindField, .string kind)]

/-- A rule that concludes a fact of one kind from a fact of another, unless there is one. -/
def relay (id source target : String) : Rule Unit where
  id
  salience := 0
  conditions := [.matching source .wildcard none [], .lacking target .wildcard]
  guards := []
  postConditions := []
  action := fun _ => .ask (.assertLogical (recordOf target)) fun _ => .done
  around := none
  after := none
  handlers := []

/-- An engine with an alarm that rests on a sensor, and a call that rests on the alarm. -/
def linked : Ran Unit (Option Report) :=
  EngineM.run
    (do
      (Operation.define (.rule (relay "alarm" "Sensor" "Alarm"))).perform
      (Operation.define (.rule (relay "call" "Alarm" "Call"))).perform
      (Operation.assert (recordOf "Sensor")).perform
      Engine.run 3)
    (.ofConfig {})

theorem linked_history : ∃ done, History linked.engine linked.output done := by
  have defined := (History.created {}).operated (.define (.rule (relay "alarm" "Sensor" "Alarm")))
  have both := defined.operated (.define (.rule (relay "call" "Alarm" "Call")))
  have asserted := both.operated (.assert (recordOf "Sensor"))
  obtain ⟨done, run⟩ := asserted.complete 3 {}
  exact ⟨[] ++ done, by simpa [linked, Engine.run] using run⟩

/-- The same engine after the sensor was taken out. The alarm and the call are still stored. -/
def cut : Ran Unit Unit := (Operation.retract ⟨1⟩).perform.run linked.engine

/-- The tasks that were dealt with on the way. -/
theorem history : ∃ done, History cut.engine (linked.output ++ cut.output) done := by
  obtain ⟨done, linked⟩ := linked_history
  exact ⟨done, linked.operated (.retract ⟨1⟩)⟩

end Sample

end RuleEngine
