import RuleEngine.Proofs.Engine.Cascade
import RuleEngine.Proofs.Engine.Pause

/-! How much work there is between two firings. A task that fires nothing takes exactly one from the
facts that are stored and the tasks that wait, also if it sets off a cascade, so they bound how many
tasks a run deals with up to its next firing. A run under a limit fires a bounded number of times
and therefore always comes to an end.
-/

namespace RuleEngine

namespace Engine

open EngineM

variable {ν : Type}

-- --------------------------------------------------------------------------------------
-- Tasks that fire nothing
-- --------------------------------------------------------------------------------------

/-- An engine deals completely with a number of tasks from the front of its agenda, and fires
nothing for them.
-/
inductive PassesOver : Engine ν → Nat → Engine ν → Prop where
  | none (e : Engine ν) : PassesOver e 0 e
  | task {e e' e'' : Engine ν} {t : Task} {agenda : Agenda} {mayFire : Bool}
    {out : List (Output ν)} {count : Nat} (taken : e.agenda.next? = some (t, agenda))
    (dealt : (process t mayFire).run { e with agenda } = ⟨.ok none, e', out⟩)
    (later : PassesOver e' count e'')
    : PassesOver e (count + 1) e''

/-- Every fact that is taken out leaves a task in its place. -/
theorem Withdrawal.load_eq {stays : Tracked → Bool} {falls : Entry → Bool} {e : Engine ν}
    {ran : Ran ν Unit} {removed : List Entry} (withdrawal : Withdrawal stays falls e ran removed)
    (coherent : e.store.Coherent)
    : ran.engine.load = e.load := by
  have facts := withdrawal.size coherent
  have tasks : ran.engine.agenda.size = e.agenda.size + removed.length := by
    simp [Agenda.size, withdrawal.agenda]
  unfold load
  omega

/-- The task that is taken is one less to do. -/
theorem load_of_next? {e : Engine ν} {t : Task} {agenda : Agenda}
    (taken : e.agenda.next? = some (t, agenda))
    : load { e with agenda } + 1 = e.load := by
  simp [load, Agenda.size, Agenda.tasks_of_next? taken, Nat.add_assoc]

/-- A task that fires nothing lessens the load by one. -/
theorem load_add_one_of_passedOver {e e' : Engine ν} (settled : e.Settled) {t : Task}
    {agenda : Agenda} {mayFire : Bool} {out : List (Output ν)}
    (taken : e.agenda.next? = some (t, agenda))
    (dealt : (process t mayFire).run { e with agenda } = ⟨.ok none, e', out⟩)
    : e'.load + 1 = e.load := by
  rw [← load_of_next? taken]
  cases change : t.change with
  | retracted =>
    obtain ⟨removed, withdrawal⟩ := maintainSupport_withdrawal (settled.taken taken) t.fact.id
    rw [process_retracted change] at dealt
    obtain ⟨-, rfl, -⟩ := Ran.mk.inj dealt
    rw [withdrawal.load_eq settled.coherent]
  | asserted =>
    have outcome := process_dealt change mayFire { e with agenda }
    rw [dealt] at outcome
    cases outcome with
    | passedOver => rfl

/-- Every task that is passed over takes one from the load, by induction on the tasks. -/
theorem PassesOver.load_add {e e' : Engine ν} {count : Nat} (passes : e.PassesOver count e')
    (settled : e.Settled)
    : e'.load + count = e.load := by
  induction passes with
  | none => rfl
  | @task e _ _ t agenda mayFire _ _ taken dealt _ ih =>
    have first := load_add_one_of_passedOver settled taken dealt
    have onward := settled.process taken mayFire
    rw [dealt] at onward
    have rest := ih onward
    omega

-- --------------------------------------------------------------------------------------
-- Up to the next firing
-- --------------------------------------------------------------------------------------

/-- The load is enough for the tasks up to the next firing, so a run gets no further if it may deal
with more tasks; by induction on their number.
-/
theorem advance_of_load_lt {e : Engine ν} {r : Run} {most most' : Nat} (enough : e.load < most)
    (enough' : e.load < most')
    : (advance most r).run e = (advance most' r).run e := by
  induction most generalizing e r most' with
  | zero => exact absurd enough (Nat.not_lt_zero _)
  | succ most ih =>
    obtain ⟨most', rfl⟩ := Nat.exists_eq_succ_of_ne_zero (Nat.ne_zero_of_lt enough')
    cases taken : e.agenda.next? with
    | none => simp [advance, taken]
    | some first =>
      obtain ⟨t, agenda⟩ := first
      cases ran : (process t (mayFire e.config r.summary)).run { e with agenda } with
      | mk result e' out =>
        rcases result with failure | _ | f
        · simp [advance, taken, ran]
        · have lighter := load_of_passedOver taken (process_of_ok ran)
          have onward : (advance most { r with summary := r.summary.countTask }).run e'
              = (advance most' { r with summary := r.summary.countTask }).run e' :=
            ih (by omega) (by omega)
          simp [advance, taken, ran, onward]
        · simp [advance, taken, ran]

/-- A run deals with no more tasks up to its next firing than the load, by induction on the number
of tasks that it may deal with.
-/
theorem advance_tasks_le (e : Engine ν) (r : Run) (most : Nat)
    : ((advance most r).run e).result.2.summary.tasks ≤ r.summary.tasks + e.load := by
  induction most generalizing e r with
  | zero => exact Nat.le_add_right _ _
  | succ most ih =>
    cases taken : e.agenda.next? with
    | none => simp [advance, taken]
    | some first =>
      obtain ⟨t, agenda⟩ := first
      have lighter := load_of_next? taken
      cases ran : (process t (mayFire e.config r.summary)).run { e with agenda } with
      | mk result e' out =>
        rcases result with failure | _ | f
        · simp [advance, taken, ran]
        · have less := load_of_passedOver taken (process_of_ok ran)
          have rest := ih e' { r with summary := r.summary.countTask }
          simp only [RunSummary.countTask] at rest
          simp only [advance, taken, ran, run_bind, run_get, run_modify, RunSummary.countTask]
          omega
        · simp only [advance, taken, ran, run_bind, run_get, run_modify, run_pure,
            RunSummary.countFired]
          omega

-- --------------------------------------------------------------------------------------
-- Runs under a limit
-- --------------------------------------------------------------------------------------

/-- A run that has come to its end comes to the same end with more patience, by induction on the
patience.
-/
theorem complete_add {e e' : Engine ν} {patience : Nat} {r : Run} {report : Report}
    {out : List (Output ν)} (ran : (complete patience r).run e = ⟨some report, e', out⟩)
    (more : Nat)
    : (complete (patience + more) r).run e = ⟨some report, e', out⟩ := by
  induction patience generalizing e r report out with
  | zero => cases ran
  | succ patience ih =>
    rw [Nat.succ_add]
    cases stepped : (next r).run e with
    | mk result e₁ new =>
      obtain ⟨progress, r'⟩ := result
      cases progress with
      | idle | halted =>
        simp only [complete, run_bind, stepped, run_pure] at ran ⊢
        exact ran
      | fired f =>
        cases onward : (complete patience r').run e₁ with
        | mk result e₂ rest =>
          simp only [complete, run_bind, stepped, onward, run_pure] at ran
          obtain ⟨same, rfl, rfl⟩ := Ran.mk.inj ran
          obtain ⟨report', rfl, rfl⟩ := Option.map_eq_some_iff.mp same
          simp only [complete, run_bind, stepped, ih onward, run_pure, Option.map_some]

/-- A run under a limit comes to its end with more patience than the limit allows firings, by
induction on the patience.
-/
theorem exists_complete_of_limit {n : Nat} {e : Engine ν} {patience : Nat} {r : Run}
    (limited : e.config.maxActivations = some n) (running : r.halted = false)
    (atMost : r.summary.fired ≤ n) (enough : n < r.summary.fired + patience)
    : ∃ report e' out, (complete patience r).run e = ⟨some report, e', out⟩ := by
  induction patience generalizing e r with
  | zero => exact absurd enough (Nat.not_lt.mpr atMost)
  | succ patience ih =>
    have reaches := next_reaches e running
    cases stepped : (next r).run e with
    | mk result e₁ new =>
      obtain ⟨progress, r'⟩ := result
      rw [stepped] at reaches
      cases progress with
      | idle => exact ⟨_, _, _, by simp only [complete, run_bind, stepped, run_pure]; rfl⟩
      | halted failure =>
        exact ⟨_, _, _, by simp only [complete, run_bind, stepped, run_pure]; rfl⟩
      | fired f =>
        cases reaches with
        | fired works allowed running' counted =>
          have below := mayFire_iff.mp allowed n limited
          have limited' := (congrArg Config.maxActivations works.config_eq).trans limited
          obtain ⟨report, e₂, out, ran⟩ := ih limited' running' (by omega) (by omega)
          exact ⟨_, _, _, by simp only [complete, run_bind, stepped, ran, run_pure]; rfl⟩

/-- How a run ends that may fire a number of activations: with an empty agenda, or after exactly as
many firings, before a task that would fire another.
-/
inductive EndsUnder (n : Nat) : Report → Engine ν → Prop where
  | drained {fired : List Fired} {summary : RunSummary} {e : Engine ν} (atMost : fired.length ≤ n)
    (empty : e.agenda.tasks = [])
    : EndsUnder n ⟨fired, .ok summary⟩ e
  | stopped {fired : List Fired} {e : Engine ν} (exactly : fired.length = n)
    (blocked : e.BlockedBy (.limit n))
    : EndsUnder n ⟨fired, .error (.limit n)⟩ e

/-- A run to the end under a limit ends in one of the two ways. -/
theorem RunsTo.endsUnder {n : Nat} {e e' : Engine ν} {report : Report}
    (runs : e.RunsTo report e') (limited : e.config.maxActivations = some n)
    : EndsUnder n report e' := by
  have goesOn := runs.goesOn
  rw [limited] at goesOn
  have pauses := goesOn.pauses
  obtain ⟨fired, failure | summary⟩ := report
  · obtain ⟨rfl, exactly, blocked⟩ := pauses.stopped failure rfl
    exact .stopped exactly blocked
  · refine .drained pauses.atMost ?_
    have drained := runs.isDrained rfl
    cases tasks : e'.agenda.tasks with
    | nil => rfl
    | cons t rest => simp [IsDrained, Agenda.next?, tasks] at drained

/-- At every point of a history a task that fires nothing takes one from the number of stored facts
and waiting tasks. Up to the next firing a run therefore deals with no more tasks than that, and a
run that may fire a number of activations comes to its end whatever the bodies of rules do.
-/
theorem limited_run_ends {e : Engine ν} {out : List (Output ν)} {done : List Task}
    (history : History e out done)
    : (∀ t agenda mayFire e' more, e.agenda.next? = some (t, agenda) →
        (process t mayFire).run { e with agenda } = ⟨.ok none, e', more⟩ →
        e'.store.size + e'.agenda.size + 1 = e.store.size + e.agenda.size)
      ∧ (∀ count e', e.PassesOver count e' →
          e'.store.size + e'.agenda.size + count = e.store.size + e.agenda.size)
      ∧ (∀ r : Run, r.halted = false →
          ((next r).run e).result.2.summary.tasks
            ≤ r.summary.tasks + (e.store.size + e.agenda.size)
          ∧ ∀ most, e.store.size + e.agenda.size < most →
              (advance most r).run e = (next r).run e)
      ∧ ∀ n, e.config.maxActivations = some n →
          ∃ report e' more,
            (∀ patience, n < patience → (run patience).run e = ⟨some report, e', more⟩)
            ∧ EndsUnder n report e' := by
  have settled := settled_of_history history
  refine ⟨?_, ?_, ?_, ?_⟩
  · intro t agenda mayFire e' more taken dealt
    exact load_add_one_of_passedOver settled taken dealt
  · intro count e' passes
    exact passes.load_add settled
  · intro r running
    have step : (next r).run e = (advance (e.load + 1) r).run e := by
      simp [next, running, load]
    rw [step]
    exact ⟨advance_tasks_le e r _, fun most enough =>
      advance_of_load_lt enough (Nat.lt_succ_self _)⟩
  · intro n limited
    have enough : n < ({} : Run).summary.fired + (n + 1) := by simp
    obtain ⟨report, e', more, ran⟩ := exists_complete_of_limit limited rfl (Nat.zero_le n) enough
    refine ⟨report, e', more, fun patience enough => ?_, RunsTo.endsUnder ⟨_, _, ran⟩ limited⟩
    obtain ⟨rest, rfl⟩ := Nat.exists_eq_add_of_le enough
    exact complete_add ran rest

/-- An engine that may fire once in a run, with a sensor from which an alarm and then a call are to
be concluded.
-/
def allowedOne : Ran Unit Unit :=
  EngineM.run
    (do
      (Operation.define (.rule (Sample.relay "alarm" "Sensor" "Alarm"))).perform
      (Operation.define (.rule (Sample.relay "call" "Alarm" "Call"))).perform
      (Operation.assert (Sample.recordOf "Sensor")).perform)
    (.ofConfig { maxActivations := some 1 })

/-- A run concludes the alarm and stops before the call. -/
theorem allowedOne_run_ends
    : History allowedOne.engine allowedOne.output []
      ∧ ∃ report e' more,
        (∀ patience, 1 < patience → (run patience).run allowedOne.engine = ⟨some report, e', more⟩)
        ∧ report.fired.map (·.rule) = ["alarm"] ∧ e'.BlockedBy (.limit 1) := by
  have defined := (History.created { maxActivations := some 1 }).operated
    (.define (.rule (Sample.relay "alarm" "Sensor" "Alarm")))
  have both := defined.operated (.define (.rule (Sample.relay "call" "Alarm" "Call")))
  have asserted := both.operated (.assert (Sample.recordOf "Sensor"))
  have history : History allowedOne.engine allowedOne.output [] := by
    simpa [allowedOne] using asserted
  obtain ⟨-, -, -, ends⟩ := limited_run_ends history
  obtain ⟨report, e', more, ran, ended⟩ := ends 1 rfl
  have result : ((run 2).run allowedOne.engine).result = some report := by
    rw [ran 2 (Nat.lt_succ_self 1)]
  have stopped : (some report).map (fun r => (r.fired.map (·.rule), r.failure?.isSome))
      = some (["alarm"], true) := by
    rw [← result]
    decide +kernel
  obtain ⟨fired, failed⟩ := Prod.mk.inj (Option.some.inj stopped)
  refine ⟨history, report, e', more, ran, fired, ?_⟩
  cases ended with
  | drained => cases failed
  | stopped _ blocked => exact blocked

end Engine

end RuleEngine
