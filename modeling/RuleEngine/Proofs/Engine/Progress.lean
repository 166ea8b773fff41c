import RuleEngine.Proofs.Engine.Configuration
import RuleEngine.Proofs.Engine.Tasks
import RuleEngine.Proofs.Store.Coherence

/-! How far an engine gets with its agenda. Tasks are dealt with one after the other whatever run
they belong to, so what an engine has done up to some point does not depend on where runs begin and
stop. A run goes on up to the next firing, the end of the agenda or a task that it may not deal
with.
-/

namespace RuleEngine

/-- A task that is put back where it was taken from is the next one again. -/
theorem Agenda.putBack_of_next? {a rest : Agenda} {t : Task} (taken : a.next? = some (t, rest))
    : rest.putBack t = a := by
  obtain ⟨tasks⟩ := a
  exact congrArg Agenda.mk (tasks_of_next? taken).symm

namespace Engine

open EngineM

variable {ν : Type}

-- --------------------------------------------------------------------------------------
-- Work on the agenda
-- --------------------------------------------------------------------------------------

/-- No task waits. -/
def IsDrained (e : Engine ν) : Prop := e.agenda.next? = none

/-- An engine deals completely with some tasks from the front of its agenda, and fires what is to be
fired for them.
-/
inductive Works : Engine ν → List Fired → Engine ν → Prop where
  | rest (e : Engine ν) : Works e [] e
  | task {e e' e'' : Engine ν} {t : Task} {agenda : Agenda} {fired : Option Fired}
    {out : List (Output ν)} {more : List Fired} (taken : e.agenda.next? = some (t, agenda))
    (dealt : (process t true).run { e with agenda } = ⟨.ok fired, e', out⟩)
    (later : Works e' more e'')
    : Works e (fired.toList ++ more) e''

namespace Works

variable {e e' e'' : Engine ν} {fired more : List Fired}

/-- Work goes on where it stopped, by induction on what was done first. -/
theorem trans (first : e.Works fired e') (later : e'.Works more e'')
    : e.Works (fired ++ more) e'' := by
  induction first with
  | rest e => exact later
  | task taken dealt _ ih =>
    rw [List.append_assoc]
    exact .task taken dealt (ih later)

/-- The configuration is kept, by induction on the tasks. -/
theorem config_eq (works : e.Works fired e') : e'.config = e.config := by
  induction works with
  | rest e => rfl
  | @task e _ _ t agenda _ _ _ taken dealt _ ih =>
    have kept := (Indifferent.working.process t).config_run { e with agenda }
    rw [dealt] at kept
    exact ih.trans kept

/-- The same work is done under every configuration, by induction on the tasks. -/
theorem underConfig (works : e.Works fired e') (config : Config)
    : Works { e with config } fired { e' with config } := by
  induction works with
  | rest e => exact .rest _
  | @task e _ _ t agenda _ _ _ taken dealt _ ih =>
    have alike := Indifferent.working.process t { e with agenda } config
    rw [dealt] at alike
    exact .task taken alike ih

/-- Nothing is done if no task waits. -/
theorem of_isDrained (works : e.Works fired e') (drained : e.IsDrained)
    : fired = [] ∧ e' = e := by
  cases works with
  | rest => exact ⟨rfl, rfl⟩
  | task taken _ _ => exact absurd (taken.symm.trans drained) (by simp)

/-- From wherever an engine is on the way to the end of its agenda, the rest of the way leads to
the same end; by induction on the way that is behind it.
-/
theorem resume (whole : e.Works fired e'') (drained : e''.IsDrained) {begun : List Fired}
    (part : e.Works begun e')
    : ∃ more, fired = begun ++ more ∧ e'.Works more e'' := by
  induction part generalizing fired with
  | rest e => exact ⟨fired, rfl, whole⟩
  | @task e _ _ t agenda first _ _ taken dealt _ ih =>
    cases whole with
    | rest => exact absurd (taken.symm.trans drained) (by simp)
    | task taken' dealt' later =>
      obtain ⟨rfl, rfl⟩ := Prod.mk.inj (Option.some.inj (taken.symm.trans taken'))
      obtain ⟨same, rfl, -⟩ := Ran.mk.inj (dealt.symm.trans dealt')
      obtain rfl := Except.ok.inj same
      obtain ⟨more, rfl, onward⟩ := ih later
      exact ⟨more, (List.append_assoc _ _ _).symm, onward⟩

/-- There is one end, and one way to it. -/
theorem unique (works : e.Works fired e') (drained : e'.IsDrained) (works' : e.Works more e'')
    (drained' : e''.IsDrained)
    : more = fired ∧ e'' = e' := by
  obtain ⟨left, rfl, onward⟩ := works.resume drained works'
  obtain ⟨rfl, rfl⟩ := onward.of_isDrained drained'
  exact ⟨(List.append_nil _).symm, rfl⟩

end Works

-- --------------------------------------------------------------------------------------
-- The number of tasks between two firings
-- --------------------------------------------------------------------------------------

/-- The number of facts that are stored and of tasks that wait. -/
def load (e : Engine ν) : Nat := e.store.size + e.agenda.size

/-- A task is taken from the load. -/
theorem load_of_taken {e : Engine ν} {t : Task} {agenda : Agenda}
    (taken : e.agenda.next? = some (t, agenda))
    : load { e with agenda } < e.load := by
  simp [load, Agenda.size, Agenda.tasks_of_next? taken]

/-- A fact that is taken out leaves a task in its place. -/
theorem retract_load (id : FactId)
    : (retract id : EngineM ν (Option Fact)).Obeys fun e _ e' => e'.load ≤ e.load := by
  intro e
  cases retracted : e.store.retract? id with
  | none => simp [retract, retracted]
  | some taken =>
    obtain ⟨entry, store⟩ := taken
    obtain ⟨member, rfl, rfl⟩ := Store.retract?_eq_some retracted
    have fewer : (e.store.entries.filter (·.id != entry.id)).length < e.store.entries.length :=
      List.length_filter_lt_length_iff_exists.mpr ⟨entry, member, by simp⟩
    simp only [retract, retracted, run_bind, run_get, run_modify, run_emit, run_schedule, run_pure,
      load, Store.size, Agenda.size, Agenda.push, List.length_append, List.length_singleton]
    omega

theorem maintainSupport_load (gone : FactId)
    : (maintainSupport gone : EngineM ν Unit).Obeys fun e _ e' => e'.load ≤ e.load := by
  have allows : AllowsSilence fun (e : Engine ν) (_ : List (Output ν)) e' => e'.load ≤ e.load := by
    refine ⟨⟨fun _ => Nat.le_refl _, ?_⟩, ?_⟩
    · intro _ _ _ _ _ first rest
      exact Nat.le_trans rest first
    · intro _ _ _ _ store agenda _
      simp [load, store, agenda]
  exact (Obeys.withdrawing allows retract_load).maintainSupport gone

/-- A task that fires nothing lessens the load. -/
theorem load_of_passedOver {e e' : Engine ν} {t : Task} {agenda : Agenda} {out : List (Output ν)}
    (taken : e.agenda.next? = some (t, agenda))
    (dealt : (process t true).run { e with agenda } = ⟨.ok none, e', out⟩)
    : e'.load < e.load := by
  have lighter := load_of_taken taken
  cases change : t.change with
  | retracted =>
    have kept := maintainSupport_load t.fact.id { e with agenda }
    rw [process_retracted change] at dealt
    obtain ⟨-, rfl, -⟩ := Ran.mk.inj dealt
    exact Nat.lt_of_le_of_lt kept lighter
  | asserted =>
    have outcome := process_dealt change true { e with agenda }
    rw [dealt] at outcome
    cases outcome with
    | passedOver silent => exact lighter

-- --------------------------------------------------------------------------------------
-- Up to the next firing
-- --------------------------------------------------------------------------------------

/-- The next task fires an activation that the limit forbids, and a run that comes to it leaves the
engine as it was.
-/
def BlockedBy (e : Engine ν) (failure : Failure) : Prop :=
  ∃ t agenda out, e.agenda.next? = some (t, agenda)
    ∧ (process t false).run { e with agenda } = ⟨.error failure, e, out⟩

/-- How far a run gets from an engine in one go. -/
inductive Reaches (r : Run) (e : Engine ν) : Progress × Run → Engine ν → Prop where
  | idle {r' : Run} {e' : Engine ν} (works : e.Works [] e') (drained : e'.IsDrained)
    : Reaches r e (.idle, r') e'
  | fired {f : Fired} {r' : Run} {e' : Engine ν} (works : e.Works [f] e')
    (allowed : mayFire e.config r.summary = true) (running : r'.halted = false)
    (counted : r'.summary.fired = r.summary.fired + 1)
    : Reaches r e (.fired f, r') e'
  | halted {r' : Run} {e' : Engine ν} (works : e.Works [] e')
    (refused : mayFire e.config r.summary = false) (stopped : r'.halted = true)
    (blocked : e'.BlockedBy (.limit (e.config.maxActivations.getD 0)))
    : Reaches r e (.halted (.limit (e.config.maxActivations.getD 0)), r') e'

/-- A task in front that fires nothing changes nothing about how far a run gets. -/
theorem Reaches.afterTask {r : Run} {e e₁ e' : Engine ν} {reached : Progress × Run}
    (works : e.Works [] e₁)
    (reaches : Reaches { r with summary := r.summary.countTask } e₁ reached e')
    : Reaches r e reached e' := by
  have config := works.config_eq
  cases reaches with
  | idle onward drained => exact .idle (works.trans onward) drained
  | fired onward allowed running counted =>
    rw [config] at allowed
    exact .fired (works.trans onward) allowed running counted
  | halted onward refused stopped blocked =>
    rw [config] at refused blocked ⊢
    exact .halted (works.trans onward) refused stopped blocked

/-- A run gets to the next firing, to the end or to a task that blocks it with as many tasks as
the load has, by induction on their number.
-/
theorem advance_reaches {e : Engine ν} {r : Run} {most : Nat} (enough : e.load < most)
    (running : r.halted = false)
    : Reaches r e ((advance most r).run e).result ((advance most r).run e).engine := by
  induction most generalizing e r with
  | zero => exact absurd enough (Nat.not_lt_zero _)
  | succ most ih =>
    cases taken : e.agenda.next? with
    | none =>
      have drained : Reaches r e (.idle, r) e := .idle (.rest e) taken
      simpa [advance, taken] using drained
    | some first =>
      obtain ⟨t, agenda⟩ := first
      cases ran : (process t (mayFire e.config r.summary)).run { e with agenda } with
      | mk result e' out =>
        cases result with
        | error failure =>
          obtain ⟨refused, rfl, rfl⟩ := process_of_error ran
          rw [refused] at ran
          simp only [Agenda.putBack_of_next? taken] at ran
          have halted : Reaches r e (.halted _, { r with halted := true }) e :=
            .halted (.rest e) refused rfl ⟨t, agenda, out, taken, ran⟩
          simpa [advance, taken, refused, ran] using halted
        | ok fired =>
          have works : e.Works (fired.toList ++ []) e' :=
            .task taken (process_of_ok ran) (.rest e')
          cases fired with
          | none =>
            have lighter := load_of_passedOver taken (process_of_ok ran)
            have onward := ih (r := { r with summary := r.summary.countTask })
              (Nat.lt_of_lt_of_le lighter (Nat.le_of_lt_succ enough)) running
            simpa [advance, taken, ran] using onward.afterTask works
          | some f =>
            have fired : Reaches r e (.fired f, { r with summary := r.summary.countFired f }) e' :=
              .fired works (process_of_fired ran) running rfl
            simpa [advance, taken, ran] using fired

/-- A run that was not halted gets on, since it takes as many tasks as the load may ask for. -/
theorem next_reaches (e : Engine ν) {r : Run} (running : r.halted = false)
    : Reaches r e ((next r).run e).result ((next r).run e).engine := by
  have reaches := advance_reaches (Nat.lt_succ_self e.load) running
  simpa [next, running, load] using reaches

end Engine

end RuleEngine
