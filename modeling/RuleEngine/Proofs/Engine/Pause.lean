import RuleEngine.Proofs.Engine.History
import RuleEngine.Proofs.Engine.Progress

/-! The limit of a run is a pause. A run that it stops has fired as many activations as it allows
and leaves the engine as it was before the task that would fire the next one, so runs under a limit
that are made one after the other come to the same as one run without a limit. So do partial runs,
wherever each of them is given up.
-/

namespace RuleEngine

-- --------------------------------------------------------------------------------------
-- Runs one after the other
-- --------------------------------------------------------------------------------------

namespace Progress

def fired? : Progress → Option Fired
  | fired f => some f
  | _ => none

def failure? : Progress → Option Failure
  | halted failure => some failure
  | _ => none

end Progress

/-- The failure that ended a run before the agenda was empty. -/
def Report.failure? (r : Report) : Option Failure :=
  match r.outcome with
  | .ok _ => none
  | .error failure => some failure

namespace Engine

open EngineM

variable {ν : Type}

/-- An engine under another limit. -/
def withLimit (limit : Option Nat) (e : Engine ν) : Engine ν :=
  { e with config := { e.config with maxActivations := limit } }

/-- A run comes to its end, at some engine and with some report. -/
def RunsTo (e : Engine ν) (report : Report) (e' : Engine ν) : Prop :=
  ∃ patience out, (run patience).run e = ⟨some report, e', out⟩

/-- Runs are made one after the other, each from where the one before stopped, up to the first that
does not fail.
-/
inductive RunsOn : Engine ν → List Report → Engine ν → Prop where
  | last {e e' : Engine ν} {report : Report} (runs : e.RunsTo report e')
    (succeeded : report.failure? = none)
    : RunsOn e [report] e'
  | again {e e' e'' : Engine ν} {report : Report} {reports : List Report}
    (runs : e.RunsTo report e') {failure : Failure} (failed : report.failure? = some failure)
    (later : RunsOn e' reports e'')
    : RunsOn e (report :: reports) e''

/-- Partial runs are made one after the other, each with its number of steps, and are given up. -/
def takeEach : List Nat → EngineM ν (List Progress)
  | [] => return []
  | steps :: rest => do
    let (items, _) ← take {} steps
    let more ← takeEach rest
    return items ++ more

/-- What a call under a limit comes to, with what it fired and the failure that it gave. It fires no
more than the limit allows. If it fails it has fired as many, and it leaves the engine at the point
before the next task, of which it did nothing.
-/
structure Pauses (n : Nat) (e : Engine ν) (fired : List Fired) (failure? : Option Failure)
    (e' : Engine ν) : Prop where
  works : e.Works fired e'
  atMost : fired.length ≤ n
  stopped : ∀ failure ∈ failure?,
    failure = .limit n ∧ fired.length = n ∧ e'.BlockedBy failure

-- --------------------------------------------------------------------------------------
-- A run under way
-- --------------------------------------------------------------------------------------

theorem mayFire_iff {c : Config} {s : RunSummary}
    : mayFire c s = true ↔ ∀ n ∈ c.maxActivations, s.fired < n := by
  cases limit : c.maxActivations <;> simp [mayFire, limit]

/-- What becomes of a run that has fired some activations before: it fires more up to the limit, and
if it fails it has come to the limit and stands before a task that this limit blocks.
-/
structure GoesOn (limit : Option Nat) (before : Nat) (e : Engine ν) (fired : List Fired)
    (failure? : Option Failure) (e' : Engine ν) : Prop where
  works : e.Works fired e'
  atMost : ∀ n ∈ limit, before ≤ n → before + fired.length ≤ n
  stopped : ∀ failure ∈ failure?, e'.BlockedBy failure
    ∧ ∃ n ∈ limit, failure = .limit n ∧ n ≤ before + fired.length

namespace GoesOn

variable {limit : Option Nat} {before : Nat} {e e' e'' : Engine ν}

/-- A run that fires nothing more and does not fail. -/
theorem quiet (works : e.Works [] e') : GoesOn limit before e [] none e' :=
  ⟨works, fun _ _ atMost => atMost, nofun⟩

/-- A run that fires once and then goes on. -/
theorem cons {f : Fired} {fired : List Fired} {failure? : Option Failure} (works : e.Works [f] e')
    (allowed : ∀ n ∈ limit, before < n) (later : GoesOn limit (before + 1) e' fired failure? e'')
    : GoesOn limit before e (f :: fired) failure? e'' := by
  have counted : before + (f :: fired).length = before + 1 + fired.length := by
    rw [List.length_cons]
    omega
  refine ⟨works.trans later.works, ?_, ?_⟩
  · intro n limited _
    rw [counted]
    exact later.atMost n limited (allowed n limited)
  · rw [counted]
    exact later.stopped

/-- A run from its beginning fires as many activations as the limit before it fails. -/
theorem pauses {n : Nat} {fired : List Fired} {failure? : Option Failure}
    (goesOn : GoesOn (some n) 0 e fired failure? e')
    : Pauses n e fired failure? e' := by
  have atMost : fired.length ≤ n := by simpa using goesOn.atMost n rfl (Nat.zero_le n)
  refine ⟨goesOn.works, atMost, ?_⟩
  intro failure failed
  obtain ⟨blocked, n', same, rfl, least⟩ := goesOn.stopped failure failed
  obtain rfl := Option.some.inj same
  rw [Nat.zero_add] at least
  exact ⟨rfl, Nat.le_antisymm atMost least, blocked⟩

end GoesOn

/-- A run that fired can go on. -/
theorem Reaches.running {r r' : Run} {e e' : Engine ν} {f : Fired}
    (reaches : Reaches r e (.fired f, r') e')
    : r'.halted = false := by
  cases reaches with
  | fired _ _ running _ => exact running

/-- A run that was stopped is halted. -/
theorem Reaches.stopped {r r' : Run} {e e' : Engine ν} {failure : Failure}
    (reaches : Reaches r e (.halted failure, r') e')
    : r'.halted = true := by
  cases reaches with
  | halted _ _ stopped _ => exact stopped

/-- A run that the limit stops has fired as many activations as the limit. -/
theorem goesOn_of_halted {r r' : Run} {e e' : Engine ν} {failure : Failure}
    (reaches : Reaches r e (.halted failure, r') e')
    : GoesOn e.config.maxActivations r.summary.fired e [] (some failure) e' := by
  cases reaches with
  | halted works refused _ blocked =>
    obtain ⟨n, limited, least⟩ : ∃ n ∈ e.config.maxActivations, n ≤ r.summary.fired := by
      by_contra none
      have allowed := mayFire_iff.mpr fun n limited => Nat.lt_of_not_le fun least =>
        none ⟨n, limited, least⟩
      exact absurd (allowed.symm.trans refused) Bool.noConfusion
    rw [Option.mem_def.mp limited] at blocked ⊢
    refine ⟨works, fun _ _ atMost => atMost, ?_⟩
    intro failure same
    obtain rfl := Option.some.inj same
    exact ⟨blocked, n, rfl, rfl, least⟩

/-- What a run goes on with after a firing, it goes on with from before that firing. -/
theorem goesOn_of_fired {r r' : Run} {e e' e'' : Engine ν} {f : Fired} {fired : List Fired}
    {failure? : Option Failure} (reaches : Reaches r e (.fired f, r') e')
    (later : GoesOn e'.config.maxActivations r'.summary.fired e' fired failure? e'')
    : GoesOn e.config.maxActivations r.summary.fired e (f :: fired) failure? e'' := by
  cases reaches with
  | fired works allowed _ counted =>
    rw [works.config_eq, counted] at later
    exact .cons works (mayFire_iff.mp allowed) later

/-- A run to its end goes on as it may, and if it does not fail no task is left; by induction on
the patience.
-/
theorem complete_goesOn {e e' : Engine ν} {patience : Nat} {r : Run} {report : Report}
    {out : List (Output ν)} (running : r.halted = false)
    (ran : (complete patience r).run e = ⟨some report, e', out⟩)
    : GoesOn e.config.maxActivations r.summary.fired e report.fired report.failure? e'
      ∧ (report.failure? = none → e'.IsDrained) := by
  induction patience generalizing e r report out with
  | zero => cases ran
  | succ patience ih =>
    have reaches := next_reaches e running
    cases stepped : (next r).run e with
    | mk result e₁ new =>
      obtain ⟨progress, r'⟩ := result
      rw [stepped] at reaches
      cases progress with
      | idle =>
        simp only [complete, run_bind, stepped, run_pure] at ran
        obtain ⟨same, rfl, -⟩ := Ran.mk.inj ran
        obtain rfl := Option.some.inj same
        cases reaches with
        | idle works drained => exact ⟨.quiet works, fun _ => drained⟩
      | halted failure =>
        simp only [complete, run_bind, stepped, run_pure] at ran
        obtain ⟨same, rfl, -⟩ := Ran.mk.inj ran
        obtain rfl := Option.some.inj same
        exact ⟨goesOn_of_halted reaches, fun succeeded => by cases succeeded⟩
      | fired f =>
        cases onward : (complete patience r').run e₁ with
        | mk result e₂ more =>
          simp only [complete, run_bind, stepped, onward, run_pure] at ran
          obtain ⟨same, rfl, -⟩ := Ran.mk.inj ran
          obtain ⟨report', rfl, rfl⟩ := Option.map_eq_some_iff.mp same
          obtain ⟨goesOn, drained⟩ := ih reaches.running onward
          exact ⟨goesOn_of_fired reaches goesOn, drained⟩

/-- A run comes to its end if there is an end to come to: it fires one activation less than its
patience at most; by induction on the patience.
-/
theorem exists_complete {e e' : Engine ν} {fired : List Fired} {patience : Nat} {r : Run}
    (works : e.Works fired e') (drained : e'.IsDrained) (running : r.halted = false)
    (enough : fired.length < patience)
    : ∃ report e'' out, (complete patience r).run e = ⟨some report, e'', out⟩ := by
  induction patience generalizing e r fired with
  | zero => exact absurd enough (Nat.not_lt_zero _)
  | succ patience ih =>
    have reaches := next_reaches e running
    cases stepped : (next r).run e with
    | mk result e₁ new =>
      obtain ⟨progress, r'⟩ := result
      rw [stepped] at reaches
      cases progress with
      | idle => exact ⟨_, _, _, by simp only [complete, run_bind, stepped, run_pure]; rfl⟩
      | halted failure =>
        exact ⟨_, _, _, by simp only [complete, run_bind, stepped, run_pure]; rfl⟩
      | fired f =>
        have running' := reaches.running
        cases reaches with
        | fired first _ _ _ =>
          obtain ⟨more, rfl, onward⟩ := works.resume drained first
          obtain ⟨report, e₂, out, ran⟩ := ih onward running' (Nat.lt_of_succ_lt_succ enough)
          exact ⟨_, _, _, by simp only [complete, run_bind, stepped, ran, run_pure]; rfl⟩

/-- A run that was halted takes no more steps. -/
theorem take_of_halted {r : Run} (halted : r.halted = true) (steps : Nat) (e : Engine ν)
    : (take r steps).run e = ⟨([], r), e, []⟩ := by
  cases steps with
  | zero => rfl
  | succ steps => simp [take, next, halted]

/-- A partial run goes on as it may, by induction on its steps. -/
theorem take_goesOn {e e' : Engine ν} {steps : Nat} {r r' : Run} {items : List Progress}
    {out : List (Output ν)} (running : r.halted = false)
    (ran : (take r steps).run e = ⟨(items, r'), e', out⟩)
    : GoesOn e.config.maxActivations r.summary.fired e (items.filterMap (·.fired?))
        (items.findSome? (·.failure?)) e' := by
  induction steps generalizing e r items out with
  | zero =>
    obtain ⟨same, rfl, -⟩ := Ran.mk.inj ran
    obtain ⟨rfl, rfl⟩ := Prod.mk.inj same
    exact .quiet (.rest e)
  | succ steps ih =>
    have reaches := next_reaches e running
    cases stepped : (next r).run e with
    | mk result e₁ new =>
      obtain ⟨progress, r₁⟩ := result
      rw [stepped] at reaches
      cases progress with
      | idle =>
        simp only [take, run_bind, stepped, run_pure] at ran
        obtain ⟨same, rfl, -⟩ := Ran.mk.inj ran
        obtain ⟨rfl, rfl⟩ := Prod.mk.inj same
        cases reaches with
        | idle works drained => exact .quiet works
      | halted failure =>
        have ended := take_of_halted reaches.stopped steps e₁
        simp only [take, run_bind, stepped, ended, run_pure] at ran
        obtain ⟨same, rfl, -⟩ := Ran.mk.inj ran
        obtain ⟨rfl, rfl⟩ := Prod.mk.inj same
        exact goesOn_of_halted reaches
      | fired f =>
        cases onward : (take r₁ steps).run e₁ with
        | mk result e₂ more =>
          obtain ⟨items', r₂⟩ := result
          simp only [take, run_bind, stepped, onward, run_pure] at ran
          obtain ⟨same, rfl, -⟩ := Ran.mk.inj ran
          obtain ⟨rfl, rfl⟩ := Prod.mk.inj same
          exact goesOn_of_fired reaches (ih reaches.running onward)

/-- A partial run of some steps fires something or comes to the end, unless it may not fire. -/
theorem take_advances {e e' : Engine ν} {steps : Nat} {r r' : Run} {items : List Progress}
    {out : List (Output ν)} (running : r.halted = false)
    (allowed : mayFire e.config r.summary = true) (some? : 1 ≤ steps)
    (ran : (take r steps).run e = ⟨(items, r'), e', out⟩)
    : items.filterMap (·.fired?) ≠ [] ∨ e'.IsDrained := by
  obtain ⟨steps, rfl⟩ := Nat.exists_eq_add_of_le' some?
  have reaches := next_reaches e running
  cases stepped : (next r).run e with
  | mk result e₁ new =>
    obtain ⟨progress, r₁⟩ := result
    rw [stepped] at reaches
    simp only [take, run_bind, stepped] at ran
    cases progress with
    | idle =>
      obtain ⟨-, rfl, -⟩ := Ran.mk.inj ran
      cases reaches with
      | idle _ drained => exact .inr drained
    | halted failure =>
      cases reaches with
      | halted _ refused _ _ => exact absurd (allowed.symm.trans refused) Bool.noConfusion
    | fired f =>
      obtain ⟨same, -, -⟩ := Ran.mk.inj ran
      obtain ⟨rfl, -⟩ := Prod.mk.inj same
      exact .inl (List.cons_ne_nil _ _)

-- --------------------------------------------------------------------------------------
-- Runs to the end
-- --------------------------------------------------------------------------------------

theorem RunsTo.goesOn {e e' : Engine ν} {report : Report} (runs : e.RunsTo report e')
    : GoesOn e.config.maxActivations 0 e report.fired report.failure? e' := by
  obtain ⟨patience, out, ran⟩ := runs
  exact (complete_goesOn rfl ran).1

theorem RunsTo.isDrained {e e' : Engine ν} {report : Report} (runs : e.RunsTo report e')
    (succeeded : report.failure? = none)
    : e'.IsDrained := by
  obtain ⟨patience, out, ran⟩ := runs
  exact (complete_goesOn rfl ran).2 succeeded

/-- A run without a limit does not fail. -/
theorem RunsTo.succeeds {e e' : Engine ν} {report : Report} (runs : e.RunsTo report e')
    (unlimited : e.config.maxActivations = none)
    : report.failure? = none := by
  cases failed : report.failure? with
  | none => rfl
  | some failure =>
    obtain ⟨-, n, limited, -, -⟩ := runs.goesOn.stopped failure failed
    cases unlimited.symm.trans limited

/-- A run comes to its end if there is an end to come to. -/
theorem Works.exists_runsTo {e e' : Engine ν} {fired : List Fired} (works : e.Works fired e')
    (drained : e'.IsDrained)
    : ∃ report e'', e.RunsTo report e'' := by
  obtain ⟨report, e'', out, ran⟩ :=
    exists_complete (r := {}) works drained rfl (Nat.lt_succ_self fired.length)
  exact ⟨report, e'', _, out, ran⟩

/-- A run without a limit from somewhere on the way to the end does the rest of the way. -/
theorem Works.runsTo {e e' : Engine ν} {fired : List Fired} (works : e.Works fired e')
    (drained : e'.IsDrained) (unlimited : e.config.maxActivations = none)
    : ∃ report, e.RunsTo report e' ∧ report.fired = fired := by
  obtain ⟨report, e'', runs⟩ := works.exists_runsTo drained
  have drained' := runs.isDrained (runs.succeeds unlimited)
  obtain ⟨same, rfl⟩ := works.unique drained runs.goesOn.works drained'
  exact ⟨report, runs, same⟩

/-- Runs one after the other come to the end of the agenda, by induction on the runs. -/
theorem RunsOn.works {e e' : Engine ν} {reports : List Report} (runs : e.RunsOn reports e')
    : e.Works (reports.flatMap (·.fired)) e' ∧ e'.IsDrained := by
  induction runs with
  | last runs succeeded =>
    exact ⟨by simpa using runs.goesOn.works, runs.isDrained succeeded⟩
  | again runs _ _ ih => exact ⟨runs.goesOn.works.trans ih.1, ih.2⟩

/-- Runs one after the other come to an end, since each that the limit stops has fired something;
by induction on what is left to fire.
-/
theorem exists_runsOn {n : Nat} (positive : 1 ≤ n) {e e' : Engine ν} {fired : List Fired}
    (works : e.Works fired e') (drained : e'.IsDrained)
    (limited : e.config.maxActivations = some n)
    : ∃ reports e'', e.RunsOn reports e'' := by
  induction size : fired.length using Nat.strongRecOn generalizing e fired with
  | ind left ih =>
    obtain ⟨report, e₁, runs⟩ := works.exists_runsTo drained
    cases failed : report.failure? with
    | none => exact ⟨_, _, .last runs failed⟩
    | some failure =>
      have goesOn := runs.goesOn
      obtain ⟨more, rfl, onward⟩ := works.resume drained goesOn.works
      obtain ⟨-, n', limited', -, least⟩ := goesOn.stopped failure failed
      obtain rfl := Option.some.inj (limited.symm.trans limited')
      have fewer : more.length < left := by
        rw [List.length_append] at size
        omega
      have limited₁ := (congrArg Config.maxActivations goesOn.works.config_eq).trans limited
      obtain ⟨reports, e₂, later⟩ := ih more.length fewer onward limited₁ rfl
      exact ⟨_, _, .again runs failed later⟩

-- --------------------------------------------------------------------------------------
-- Partial runs
-- --------------------------------------------------------------------------------------

/-- Partial runs one after the other do some of the work, by induction on their numbers of steps. -/
theorem takeEach_works (e : Engine ν) (steps : List Nat)
    : e.Works (((takeEach steps).run e).result.filterMap (·.fired?))
        ((takeEach steps).run e).engine := by
  induction steps generalizing e with
  | nil => exact .rest e
  | cons first rest ih =>
    cases ran : (take {} first).run e with
    | mk result e₁ out =>
      obtain ⟨items, r⟩ := result
      have works := (take_goesOn rfl ran).works
      simpa [takeEach, ran] using works.trans (ih e₁)

/-- More partial runs than there are firings come to the end if each takes some steps, by induction
on their numbers of steps.
-/
theorem takeEach_isDrained {e e' : Engine ν} {fired : List Fired} {steps : List Nat}
    (works : e.Works fired e') (drained : e'.IsDrained)
    (limit : e.config.maxActivations ≠ some 0) (positive : ∀ k ∈ steps, 1 ≤ k)
    (enough : fired.length < steps.length)
    : ((takeEach steps).run e).engine.IsDrained := by
  induction steps generalizing e fired with
  | nil => exact absurd enough (Nat.not_lt_zero _)
  | cons first rest ih =>
    cases ran : (take {} first).run e with
    | mk result e₁ out =>
      obtain ⟨items, r⟩ := result
      have begun := (take_goesOn rfl ran).works
      have allowed : mayFire e.config ({} : Run).summary = true :=
        mayFire_iff.mpr fun n limited => Nat.pos_of_ne_zero fun zero => limit (zero ▸ limited)
      obtain ⟨more, rfl, onward⟩ := works.resume drained begun
      have engine : ((takeEach (first :: rest)).run e).engine
          = ((takeEach rest).run e₁).engine := by
        simp [takeEach, ran]
      rw [engine]
      rcases take_advances rfl allowed (positive first List.mem_cons_self) ran with some? | last
      · refine ih onward ?_ (fun k member => positive k (List.mem_cons_of_mem _ member)) ?_
        · rw [begun.config_eq]
          exact limit
        · have advanced := List.length_pos_iff.mpr some?
          rw [List.length_append, List.length_cons] at enough
          omega
      · rw [((takeEach_works e₁ rest).of_isDrained last).2]
        exact last

-- --------------------------------------------------------------------------------------
-- Calls under a limit and the run without one
-- --------------------------------------------------------------------------------------

/-- The same work is done under every limit. -/
theorem Works.withLimit {e e' : Engine ν} {fired : List Fired} (works : e.Works fired e')
    (limit : Option Nat)
    : (e.withLimit limit).Works fired (e'.withLimit limit) := by
  simpa only [Engine.withLimit, works.config_eq] using
    works.underConfig { e.config with maxActivations := limit }

/-- What a run without a limit works, which is what is to be done under any limit. -/
theorem RunsTo.works_withLimit {e e' : Engine ν} {report : Report}
    (drains : (e.withLimit none).RunsTo report e') (limit : Option Nat)
    : (e.withLimit limit).Works report.fired (e'.withLimit limit)
      ∧ (e'.withLimit limit).IsDrained :=
  ⟨drains.goesOn.works.withLimit limit, drains.isDrained (drains.succeeds rfl)⟩

/-- Partial runs leave to a run without a limit what they did not do. -/
theorem takeEach_leaves {e e' : Engine ν} {report : Report}
    (drains : (e.withLimit none).RunsTo report e') (limit : Option Nat) (steps : List Nat)
    : ∃ rest, (((takeEach steps).run (e.withLimit limit)).engine.withLimit none).RunsTo rest e'
        ∧ report.fired
          = ((takeEach steps).run (e.withLimit limit)).result.filterMap (·.fired?)
            ++ rest.fired := by
  obtain ⟨whole, drained⟩ := drains.works_withLimit limit
  obtain ⟨more, same, onward⟩ := whole.resume drained (takeEach_works _ steps)
  have unlimited : e'.withLimit none = e' := by
    have kept := drains.goesOn.works.config_eq
    have none : e'.config.maxActivations = none := congrArg Config.maxActivations kept
    simp [withLimit, ← none]
  have left := onward.withLimit none
  have atEnd : ((e'.withLimit limit).withLimit none) = e' := unlimited
  rw [atEnd] at left
  obtain ⟨rest, runs, fired⟩ := left.runsTo drained rfl
  exact ⟨rest, runs, fired ▸ same⟩

/-- The limit of activations is a pause. A call under a limit, be it a run or a partial run, fires
no more than the limit allows, and if it fails it has fired as many and has left the engine as it
was before the task at which it failed. Runs under a limit that are made one after the other, and
partial runs wherever they are given up, fire the same activations in the same order as the run
without a limit and lead to the same engine, if that run comes to an end.
-/
theorem limit_pauses (e : Engine ν)
    : (∀ n report e', (e.withLimit (some n)).RunsTo report e' →
        Pauses n (e.withLimit (some n)) report.fired report.failure? e')
      ∧ (∀ n steps items r e' out,
          (take {} steps).run (e.withLimit (some n)) = ⟨(items, r), e', out⟩ →
          Pauses n (e.withLimit (some n)) (items.filterMap (·.fired?))
            (items.findSome? (·.failure?)) e')
      ∧ ∀ report e', (e.withLimit none).RunsTo report e' →
        (∀ n, 1 ≤ n →
          (∃ reports e'', (e.withLimit (some n)).RunsOn reports e'')
          ∧ ∀ reports e'', (e.withLimit (some n)).RunsOn reports e'' →
              reports.flatMap (·.fired) = report.fired ∧ e'' = e'.withLimit (some n))
        ∧ ∀ limit steps items e'' out,
          (takeEach steps).run (e.withLimit limit) = ⟨items, e'', out⟩ →
          (∃ rest, (e''.withLimit none).RunsTo rest e'
            ∧ report.fired = items.filterMap (·.fired?) ++ rest.fired)
          ∧ (limit ≠ some 0 → (∀ k ∈ steps, 1 ≤ k) → report.fired.length < steps.length →
              items.filterMap (·.fired?) = report.fired ∧ e'' = e'.withLimit limit) := by
  refine ⟨fun n report e' runs => runs.goesOn.pauses, ?_, ?_⟩
  · intro n steps items r e' out ran
    exact (take_goesOn rfl ran).pauses
  intro report e' drains
  constructor
  · intro n positive
    obtain ⟨whole, drained⟩ := drains.works_withLimit (some n)
    refine ⟨exists_runsOn positive whole drained rfl, ?_⟩
    intro reports e'' runs
    obtain ⟨works, drained'⟩ := runs.works
    exact whole.unique drained works drained'
  · intro limit steps items e'' out ran
    have left := takeEach_leaves drains limit steps
    have begun := takeEach_works (e.withLimit limit) steps
    rw [ran] at left begun
    refine ⟨left, fun nonzero positive enough => ?_⟩
    obtain ⟨whole, drained⟩ := drains.works_withLimit limit
    have drained' := takeEach_isDrained whole drained nonzero positive enough
    rw [ran] at drained'
    exact whole.unique drained begun drained'

/-- An engine with a sensor, from which an alarm and then a call are concluded. -/
def waiting : Engine Unit :=
  (EngineM.run
    (do
      (Operation.define (.rule (Sample.relay "alarm" "Sensor" "Alarm"))).perform
      (Operation.define (.rule (Sample.relay "call" "Alarm" "Call"))).perform
      (Operation.assert (Sample.recordOf "Sensor")).perform)
    (.ofConfig {})).engine

/-- Under a limit of one the run stops before the call, and runs one after the other conclude both.
-/
theorem waiting_pauses
    : (∃ report e', (waiting.withLimit (some 1)).RunsTo report e'
        ∧ report.fired.map (·.rule) = ["alarm"] ∧ e'.BlockedBy (.limit 1))
      ∧ ∃ report e', (waiting.withLimit none).RunsTo report e'
        ∧ report.fired.map (·.rule) = ["alarm", "call"]
        ∧ ∃ reports, (waiting.withLimit (some 1)).RunsOn reports (e'.withLimit (some 1))
          ∧ reports.flatMap (·.fired) = report.fired := by
  obtain ⟨paused, -, resumed⟩ := limit_pauses waiting
  constructor
  · cases ran : (run 2).run (waiting.withLimit (some 1)) with
    | mk result e' out =>
      have ended : ((run 2).run (waiting.withLimit (some 1))).result = result := by rw [ran]
      have first : (result.map fun report => (report.fired.map (·.rule), report.failure?.isSome))
          = some (["alarm"], true) := by
        rw [← ended]
        decide +kernel
      obtain ⟨report, rfl, same⟩ := Option.map_eq_some_iff.mp first
      obtain ⟨fired, some?⟩ := Prod.mk.inj same
      obtain ⟨failure, failed⟩ := Option.isSome_iff_exists.mp some?
      have runs : (waiting.withLimit (some 1)).RunsTo report e' := ⟨2, out, ran⟩
      obtain ⟨rfl, -, blocked⟩ := (paused 1 report e' runs).stopped failure failed
      exact ⟨report, e', runs, fired, blocked⟩
  · cases ran : (run 3).run (waiting.withLimit none) with
    | mk result e' out =>
      have ended : ((run 3).run (waiting.withLimit none)).result = result := by rw [ran]
      have both : (result.map fun report => report.fired.map (·.rule))
          = some ["alarm", "call"] := by
        rw [← ended]
        decide +kernel
      obtain ⟨report, rfl, fired⟩ := Option.map_eq_some_iff.mp both
      have runs : (waiting.withLimit none).RunsTo report e' := ⟨3, out, ran⟩
      obtain ⟨⟨reports, e'', onward⟩, all⟩ := (resumed report e' runs).1 1 (Nat.le_refl 1)
      obtain ⟨same, rfl⟩ := all reports e'' onward
      exact ⟨report, e', runs, fired, reports, onward, same⟩

end Engine

end RuleEngine
