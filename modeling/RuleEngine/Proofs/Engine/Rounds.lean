import RuleEngine.Proofs.Engine.Pause
import RuleEngine.Proofs.Engine.Replay

/-! What listeners hear of a run. A task for an asserted fact makes one round of events: activations
are counted, one is selected, its guards fail or it is fired. Whatever the bodies of rules do, the
events of different rounds never mix, and only the limit leaves a round unfinished.
-/

namespace RuleEngine

-- --------------------------------------------------------------------------------------
-- Rounds
-- --------------------------------------------------------------------------------------

/-- The events that rounds are made of. -/
def Event.isMark : Event → Bool
  | activationsFound .. | activationSelected .. | preConditionPassed .. | preConditionFailed ..
  | activationFired .. => true
  | _ => false

/-- The activation whose firing an event reports, and whether the firing failed. -/
def Event.fired? : Event → Option (ActivationId × Bool)
  | activationFired id _ failed => some (id, failed)
  | _ => none

def Output.mark? {ν : Type} : Output ν → Option Event
  | event e => if e.isMark then some e else none
  | _ => none

/-- The events of rounds that output publishes, in order. -/
def marks {ν : Type} (out : List (Output ν)) : List Event := out.filterMap (·.mark?)

/-- The round of a task, and what it fires. A fact that is gone makes no round. -/
inductive Round (t : Task) : Option Fired → List Event → Prop where
  | gone (retracted : t.change = .retracted) : Round t none []
  | unmatched (asserted : t.change = .asserted) : Round t none [.activationsFound t.fact.id 0]
  | refused {count : Nat} (asserted : t.change = .asserted) (some? : 0 < count) (rule : String)
    (b : Bindings) (failure : Option Failure)
    : Round t none
        [.activationsFound t.fact.id count, .activationSelected rule b,
          .preConditionFailed rule failure]
  | fired {count : Nat} (asserted : t.change = .asserted) (some? : 0 < count) (f : Fired)
    : Round t (some f)
        [.activationsFound t.fact.id count, .activationSelected f.rule f.bindings,
          .preConditionPassed f.rule, .activationFired f.id f.rule f.failure.isSome]

/-- The round of a task as far as it gets when the activation may not be fired. -/
inductive Unfinished (t : Task) : List Event → Prop where
  | stopped {count : Nat} (asserted : t.change = .asserted) (some? : 0 < count) (rule : String)
    (b : Bindings)
    : Unfinished t
        [.activationsFound t.fact.id count, .activationSelected rule b, .preConditionPassed rule]

/-- The rounds of some tasks one after the other, and what they fire. -/
inductive Rounds : List Task → List Fired → List Event → Prop where
  | nil : Rounds [] [] []
  | cons {t : Task} {fired : Option Fired} {events : List Event} {tasks : List Task}
    {more : List Fired} {later : List Event} (round : Round t fired events)
    (rounds : Rounds tasks more later)
    : Rounds (t :: tasks) (fired.toList ++ more) (events ++ later)

/-- Rounds go on where others ended, by induction on the first ones. -/
theorem Rounds.append {tasks more : List Task} {fired later : List Fired}
    {events others : List Event} (rounds : Rounds tasks fired events)
    (rounds' : Rounds more later others)
    : Rounds (tasks ++ more) (fired ++ later) (events ++ others) := by
  induction rounds with
  | nil => exact rounds'
  | cons round _ ih =>
    rw [List.cons_append, List.append_assoc, List.append_assoc]
    exact .cons round ih

/-- How firings report themselves. -/
def Fired.reported (f : Fired) : ActivationId × Bool := (f.id, f.failure.isSome)

/-- Rounds report each firing once and in order, by induction on the rounds. -/
theorem Rounds.filterMap_fired? {tasks : List Task} {fired : List Fired} {events : List Event}
    (rounds : Rounds tasks fired events)
    : events.filterMap (·.fired?) = fired.map (·.reported) := by
  induction rounds with
  | nil => rfl
  | cons round _ ih =>
    rw [List.filterMap_append, List.map_append, ih]
    cases round <;> rfl

theorem Unfinished.filterMap_fired? {t : Task} {events : List Event}
    (unfinished : Unfinished t events)
    : events.filterMap (·.fired?) = [] := by
  cases unfinished
  rfl

/-- The counters of a run after more tasks and firings. -/
def RunSummary.after (s : RunSummary) (tasks : List Task) (fired : List Fired) : RunSummary :=
  ⟨s.tasks + tasks.length, s.fired + fired.length, s.failed + fired.countP (·.failure.isSome)⟩

namespace RunSummary

variable (s : RunSummary)

@[simp]
theorem after_nothing : s.after [] [] = s := rfl

@[simp]
theorem after_task (t : Task) : s.after [t] [] = s.countTask := rfl

@[simp]
theorem after_firing (t : Task) (f : Fired) : s.after [t] [f] = s.countFired f := by
  cases failed : f.failure.isSome <;> simp [after, countFired, failed]

theorem after_after (tasks more : List Task) (fired later : List Fired)
    : (s.after tasks fired).after more later = s.after (tasks ++ more) (fired ++ later) := by
  simp [after, Nat.add_assoc]

end RunSummary

/-- The report about the steps of a run that came to its end. -/
def Report.ofSteps (items : List Progress) (r : Run) : Report :=
  ⟨items.filterMap (·.fired?), (items.findSome? (·.failure?)).elim (.ok r.summary) .error⟩

-- --------------------------------------------------------------------------------------
-- What makes no round
-- --------------------------------------------------------------------------------------

section

variable {ν : Type}

@[simp]
theorem marks_append (out more : List (Output ν)) : marks (out ++ more) = marks out ++ marks more :=
  List.filterMap_append

@[simp]
theorem marks_nil : marks ([] : List (Output ν)) = [] := rfl

@[simp]
theorem marks_cons_event (e : Event) (out : List (Output ν))
    : marks (.event e :: out) = if e.isMark then e :: marks out else marks out := by
  cases mark : e.isMark <;> simp [marks, Output.mark?, mark]

theorem Output.mark?_of_isReport {o : Output ν} (report : o.isReport) : o.mark? = none := by
  cases o with
  | event e => cases e <;> first | rfl | cases report
  | note | scheduled | endless => rfl

theorem marks_of_reports {out : List (Output ν)} (reports : ∀ o ∈ out, o.isReport)
    : marks out = [] :=
  List.filterMap_eq_nil_iff.mpr fun o member => o.mark?_of_isReport (reports o member)

/-- No event of a round is published, and no activation gets an identity. -/
def Unmarked (e : Engine ν) (out : List (Output ν)) (e' : Engine ν) : Prop :=
  marks out = [] ∧ e'.nextActivation = e.nextActivation

namespace Unmarked

theorem composes : Composes (Unmarked (ν := ν)) where
  refl _ := ⟨rfl, rfl⟩
  trans first rest := ⟨by simp [first.1, rest.1], rest.2.trans first.2⟩

theorem edit {author : Option ActivationId} {e e' : Engine ν} {out : List (Output ν)}
    (edit : Edit author e out e')
    : Unmarked e out e' := by
  cases edit with
  | report _ harmless => exact ⟨marks_of_reports (by simpa using harmless), rfl⟩
  | note | registry | define | undefine | assert | retract => exact ⟨rfl, rfl⟩

theorem edits {author : Option ActivationId} {e e' : Engine ν} {out : List (Output ν)}
    (edits : Edits author e out e')
    : Unmarked e out e' :=
  edits.lift composes edit

/-- Withdrawing support makes no round. -/
theorem withdrawing : EngineM.HoldsOfWithdrawing fun α (m : EngineM ν α) => m.Obeys Unmarked where
  pure _ e := composes.refl e
  bind := .bind composes
  look rest _ := .bind composes (fun e => composes.refl e) rest
  report harmless _ := ⟨marks_of_reports (by simpa [Output.isReport] using harmless), rfl⟩
  endless _ := ⟨rfl, rfl⟩
  withdrawal {event} about e := by cases event <;> first | exact ⟨rfl, rfl⟩ | cases about
  tracked _ _ := ⟨rfl, rfl⟩
  retract id :=
    have editing : EngineM.HoldsOfEditing none fun α (m : EngineM ν α) => m.EditsBy none :=
      EngineM.EditsBy.editing
    (editing.retract id).obeys composes edit

end Unmarked

end

namespace Engine

open EngineM

variable {ν : Type}

-- --------------------------------------------------------------------------------------
-- The round of one task
-- --------------------------------------------------------------------------------------

/-- The activations that are fired get the next identities, one after the other. -/
structure Issues (e : Engine ν) (fired : List Fired) (e' : Engine ν) : Prop where
  consecutive : fired.map (·.id.number) = List.range' e.nextActivation fired.length
  next : e'.nextActivation = e.nextActivation + fired.length

theorem Issues.nothing {e e' : Engine ν} (same : e'.nextActivation = e.nextActivation)
    : Issues e [] e' :=
  ⟨rfl, same⟩

theorem Issues.trans {e e' e'' : Engine ν} {fired more : List Fired} (first : Issues e fired e')
    (rest : Issues e' more e'')
    : Issues e (fired ++ more) e'' where
  consecutive := by
    rw [List.map_append, first.consecutive, rest.consecutive, first.next, List.length_append,
      List.range'_append_1]
  next := by rw [rest.next, first.next, List.length_append, Nat.add_assoc]

/-- Guards pass or fail for the rule that was selected. -/
theorem guardsPass_marks (a : Activation ν) (e : Engine ν)
    : ((guardsPass a).run e).engine = e
      ∧ if ((guardsPass a).run e).result
        then marks ((guardsPass a).run e).output = [.preConditionPassed a.rule.id]
        else ∃ failure, marks ((guardsPass a).run e).output
          = [.preConditionFailed a.rule.id failure] := by
  unfold guardsPass
  cases checkGuards a.bindings a.rule.guards with
  | passed => exact ⟨rfl, rfl⟩
  | failed => exact ⟨rfl, none, rfl⟩
  | fault guard failure => exact ⟨rfl, some failure, rfl⟩

/-- Firing reports itself at its end, whatever the body of the rule did and came to. -/
theorem fire_marks (a : Activation ν) (e : Engine ν)
    : marks ((fire a).run e).output
        = [.activationFired ((fire a).run e).result.id a.rule.id
            ((fire a).run e).result.failure.isSome]
      ∧ Issues e [((fire a).run e).result] ((fire a).run e).engine := by
  obtain ⟨e', out, edits, engine, output⟩ := fire_edits a e
  obtain ⟨unmarked, kept⟩ := Unmarked.edits edits
  refine ⟨?_, rfl, ?_⟩
  · rw [output, marks_append, unmarked]
    rfl
  · rw [engine]
    exact kept

/-- How a task is dealt with as far as listeners can tell. -/
inductive Turn (t : Task) (e : Engine ν) : Ran ν (Except Failure (Option Fired)) → Prop where
  | complete {fired : Option Fired} {e' : Engine ν} {out : List (Output ν)}
    (round : Round t fired (marks out)) (issues : Issues e fired.toList e')
    : Turn t e ⟨.ok fired, e', out⟩
  | stopped {failure : Failure} {e' : Engine ν} {out : List (Output ν)}
    (unfinished : Unfinished t (marks out))
    : Turn t e ⟨.error failure, e', out⟩

/-- A round goes on with the activation that is selected once the activations are counted. -/
theorem fireSelected_turn {t : Task} (asserted : t.change = .asserted) {count : Nat}
    (some? : 0 < count) (a : Activation ν) (mayFire : Bool) (e : Engine ν)
    {before : List (Output ν)} (counted : marks before = [.activationsFound t.fact.id count])
    : Turn t e
        { (fireSelected t a mayFire).run e with
          output := before ++ ((fireSelected t a mayFire).run e).output } := by
  obtain ⟨same, marked⟩ := guardsPass_marks a e
  cases passed : ((guardsPass a).run e).result with
  | false =>
    simp only [passed, Bool.false_eq_true, if_false] at marked
    obtain ⟨failure, marked⟩ := marked
    have round := Round.refused asserted some? a.rule.id a.bindings failure
    simpa [fireSelected, passed, same] using
      Turn.complete (by simpa [counted, marked, Event.isMark] using round) (.nothing rfl)
  | true =>
    simp only [passed, if_true] at marked
    cases mayFire with
    | true =>
      obtain ⟨ended, issues⟩ := fire_marks a e
      have round : Round t (some ((fire a).run e).result)
          [.activationsFound t.fact.id count, .activationSelected a.rule.id a.bindings,
            .preConditionPassed a.rule.id, .activationFired ((fire a).run e).result.id a.rule.id
              ((fire a).run e).result.failure.isSome] :=
        .fired asserted some? _
      simpa [fireSelected, passed, same] using
        Turn.complete (by simpa [counted, marked, ended, Event.isMark] using round) issues
    | false =>
      have unfinished := Unfinished.stopped asserted some? a.rule.id a.bindings
      simpa [fireSelected, passed, same] using
        Turn.stopped (by simpa [counted, marked, Event.isMark] using unfinished)

/-- Every task makes one round, which is only left unfinished if the activation may not be fired. -/
theorem process_turn (t : Task) (mayFire : Bool) (e : Engine ν)
    : Turn t e ((process t mayFire).run e) := by
  cases change : t.change with
  | retracted =>
    obtain ⟨unmarked, kept⟩ := Unmarked.withdrawing.maintainSupport t.fact.id e
    rw [process_retracted change]
    exact .complete (unmarked ▸ .gone change) (.nothing kept)
  | asserted =>
    obtain ⟨same, reports⟩ := Observes.reading.findActivations e.rules e
    cases found : (findActivations e.rules).run e with
    | mk candidates e' out =>
      simp only [found] at same reports
      subst same
      have counted : marks (out ++ [.event (.activationsFound t.fact.id candidates.length)])
          = [.activationsFound t.fact.id candidates.length] := by
        simp [marks_of_reports reports, Event.isMark]
      cases selected : Activation.resolve candidates with
      | none =>
        obtain rfl := Activation.resolve_eq_none_iff.mp selected
        have turn : Turn t e' ⟨.ok none, e', out ++ [.event (.activationsFound t.fact.id 0)]⟩ :=
          .complete (counted ▸ .unmatched change) (.nothing rfl)
        simpa [process, change, found, selected] using turn
      | some a =>
        have some? := List.length_pos_of_mem (Activation.mem_of_resolve selected)
        have turn := fireSelected_turn change some? a mayFire e' counted
        simpa [process, change, found, selected] using turn

-- --------------------------------------------------------------------------------------
-- The rounds of a run
-- --------------------------------------------------------------------------------------

/-- An engine deals completely with some tasks in the order of its agenda, round by round. -/
structure Proceeds (e : Engine ν) (tasks : List Task) (fired : List Fired)
    (out : List (Output ν)) (e' : Engine ν) : Prop extends Issues e fired e' where
  rounds : Rounds tasks fired (marks out)
  order : e.agenda.tasks ++ scheduled out = tasks ++ e'.agenda.tasks

namespace Proceeds

variable {e e' e'' : Engine ν} {tasks more : List Task} {fired later : List Fired}
  {out out' : List (Output ν)}

theorem nothing (e : Engine ν) : Proceeds e [] [] [] e :=
  ⟨.nothing rfl, .nil, List.append_nil _⟩

theorem trans (first : Proceeds e tasks fired out e') (rest : Proceeds e' more later out' e'')
    : Proceeds e (tasks ++ more) (fired ++ later) (out ++ out') e'' where
  toIssues := first.toIssues.trans rest.toIssues
  rounds := by
    rw [marks_append]
    exact first.rounds.append rest.rounds
  order := by
    rw [scheduled_append, ← List.append_assoc, first.order, List.append_assoc, rest.order,
      List.append_assoc]

/-- A task that is dealt with completely is the first of the agenda, and makes one round. -/
theorem task {t : Task} {agenda : Agenda} {mayFire : Bool} {fired : Option Fired}
    (taken : e.agenda.next? = some (t, agenda))
    (dealt : (process t mayFire).run { e with agenda } = ⟨.ok fired, e', out⟩)
    : Proceeds e [t] fired.toList out e' := by
  have recorded := process_obeys Recorded.allowsSilence Recorded.edit dealt
  have turn := process_turn t mayFire { e with agenda }
  rw [dealt] at turn
  cases turn with
  | complete round issues =>
    refine ⟨⟨issues.consecutive, issues.next⟩, ?_, ?_⟩
    · simpa using Rounds.cons round .nil
    · rw [Agenda.tasks_of_next? taken, recorded.agenda]
      rfl

end Proceeds

/-- What becomes of a run under way, as far as listeners can tell. It is between two tasks, or the
limit stopped it and left the round of the next task unfinished.
-/
inductive Goes (r : Run) (e : Engine ν) (fired : List Fired)
    : Option Failure → Run → List (Output ν) → Engine ν → Prop where
  | between {tasks : List Task} {out : List (Output ν)} {e' : Engine ν}
    (proceeds : Proceeds e tasks fired out e')
    : Goes r e fired none { r with summary := r.summary.after tasks fired } out e'
  | stopped {tasks : List Task} {out last : List (Output ν)} {e' : Engine ν} {t : Task}
    {agenda : Agenda} (proceeds : Proceeds e tasks fired out e')
    (next : e'.agenda.next? = some (t, agenda)) (unfinished : Unfinished t (marks last))
    (quiet : scheduled last = [])
    : Goes r e fired (some (.limit (e'.config.maxActivations.getD 0)))
        ⟨r.summary.after tasks fired, true⟩ (out ++ last) e'

theorem Goes.halted {r r' : Run} {e e' : Engine ν} {fired : List Fired} {failure : Failure}
    {out : List (Output ν)} (goes : Goes r e fired (some failure) r' out e')
    : r'.halted = true := by
  cases goes
  rfl

/-- A run goes on after some tasks. -/
theorem Goes.after {r r' : Run} {e e₁ e' : Engine ν} {tasks : List Task}
    {fired more : List Fired} {failure? : Option Failure} {out later : List (Output ν)}
    (proceeds : Proceeds e tasks fired out e₁)
    (goes : Goes { r with summary := r.summary.after tasks fired } e₁ more failure? r' later e')
    : Goes r e (fired ++ more) failure? r' (out ++ later) e' := by
  cases goes with
  | between rest =>
    rw [RunSummary.after_after]
    exact .between (proceeds.trans rest)
  | stopped rest next unfinished quiet =>
    rw [RunSummary.after_after, ← List.append_assoc]
    exact .stopped (proceeds.trans rest) next unfinished quiet

/-- By induction on the number of tasks. -/
theorem advance_goes (most : Nat) (r : Run) (e : Engine ν)
    : Goes r e ((advance most r).run e).result.1.fired?.toList
        ((advance most r).run e).result.1.failure? ((advance most r).run e).result.2
        ((advance most r).run e).output ((advance most r).run e).engine := by
  have rest (e : Engine ν) (r : Run) : Goes r e [] none r [] e := .between (.nothing e)
  induction most generalizing e r with
  | zero => exact rest e r
  | succ most ih =>
    cases taken : e.agenda.next? with
    | none => simpa [advance, taken, Progress.fired?, Progress.failure?] using rest e r
    | some first =>
      obtain ⟨t, agenda⟩ := first
      cases ran : (process t (mayFire e.config r.summary)).run { e with agenda } with
      | mk result e' out =>
        rcases result with failure | _ | f
        · have turn := process_turn t (mayFire e.config r.summary) { e with agenda }
          obtain ⟨-, rfl, rfl⟩ := process_of_error ran
          obtain ⟨-, silent⟩ := process_halted ran
          rw [ran] at turn
          cases turn with
          | stopped unfinished =>
            have goes := Goes.stopped (r := r) (.nothing e) taken unfinished
              (scheduled_of_silent silent)
            simpa [advance, taken, ran, Agenda.putBack_of_next? taken, Progress.fired?,
              Progress.failure?] using goes
        · have onward := Goes.after (r := r) (.task taken ran) (ih { r with summary := _ } e')
          simpa [advance, taken, ran] using onward
        · have goes := Goes.between (r := r) (.task taken ran)
          simpa [advance, taken, ran, Progress.fired?, Progress.failure?] using goes

theorem next_goes (r : Run) (e : Engine ν)
    : Goes r e ((next r).run e).result.1.fired?.toList ((next r).run e).result.1.failure?
        ((next r).run e).result.2 ((next r).run e).output ((next r).run e).engine := by
  cases halted : r.halted with
  | true =>
    have rest : Goes r e [] none r [] e := .between (.nothing e)
    simpa [next, halted, Progress.fired?, Progress.failure?] using rest
  | false => simpa [next, halted] using advance_goes _ r e

/-- What a partial run comes to, by induction on its steps. -/
theorem take_goes (r : Run) (steps : Nat) (e : Engine ν)
    : Goes r e (((take r steps).run e).result.1.filterMap (·.fired?))
        (((take r steps).run e).result.1.findSome? (·.failure?)) ((take r steps).run e).result.2
        ((take r steps).run e).output ((take r steps).run e).engine := by
  induction steps generalizing e r with
  | zero => exact .between (.nothing e)
  | succ steps ih =>
    have step := next_goes r e
    cases stepped : (next r).run e with
    | mk result e₁ out =>
      obtain ⟨progress, r₁⟩ := result
      rw [stepped] at step
      cases progress with
      | idle =>
        have goes : Goes r e [] none r₁ out e₁ := step
        simpa [take, stepped] using goes
      | halted failure =>
        have goes : Goes r e [] (some failure) r₁ out e₁ := step
        simpa [take, stepped, take_of_halted goes.halted, Progress.fired?, Progress.failure?]
          using goes
      | fired f =>
        have goes : Goes r e [f] none r₁ out e₁ := step
        cases goes with
        | between proceeds =>
          simpa [take, stepped, Progress.fired?, Progress.failure?] using
            Goes.after proceeds (ih _ e₁)

/-- A run does what a partial run with as many steps does, and reports it if it comes to its end;
by induction on the patience.
-/
theorem complete_eq_take (patience : Nat) (r : Run) (e : Engine ν)
    : ((complete patience r).run e).engine = ((take r patience).run e).engine
      ∧ ((complete patience r).run e).output = ((take r patience).run e).output
      ∧ (((complete patience r).run e).result = none
        ∨ ((complete patience r).run e).result
          = some (.ofSteps ((take r patience).run e).result.1
              ((take r patience).run e).result.2)) := by
  induction patience generalizing e r with
  | zero => exact ⟨rfl, rfl, .inl rfl⟩
  | succ patience ih =>
    have step := next_goes r e
    cases stepped : (next r).run e with
    | mk result e₁ out =>
      obtain ⟨progress, r₁⟩ := result
      rw [stepped] at step
      cases progress with
      | idle => simp [complete, take, stepped, Report.ofSteps]
      | halted failure =>
        have goes : Goes r e [] (some failure) r₁ out e₁ := step
        simp [complete, take, stepped, take_of_halted goes.halted, Report.ofSteps,
          Progress.fired?, Progress.failure?]
      | fired f =>
        obtain ⟨engine, output, report⟩ := ih r₁ e₁
        refine ⟨by simpa [complete, take, stepped] using engine,
          by simpa [complete, take, stepped] using output, ?_⟩
        rcases report with none | report
        · exact .inl (by simp [complete, stepped, none])
        · exact .inr (by
            simp [complete, take, stepped, report, Report.ofSteps, Progress.fired?,
              Progress.failure?])

-- --------------------------------------------------------------------------------------
-- What is heard
-- --------------------------------------------------------------------------------------

/-- The firings that output reports, each with whether it failed. -/
def reportedFirings (out : List (Output ν)) : List (ActivationId × Bool) :=
  (marks out).filterMap (·.fired?)

/-- What is heard last: nothing more, or the unfinished round at which the limit stopped the run. -/
def Ending (e' : Engine ν) (last : List Event) : Option Failure → Prop
  | none => last = []
  | some failure => failure = .limit (e'.config.maxActivations.getD 0)
      ∧ ∃ t agenda, e'.agenda.next? = some (t, agenda) ∧ Unfinished t last

/-- What listeners hear of a run from its beginning: one round for each task that was dealt with, in
the order of the agenda, and if the limit stopped the run the unfinished round of the next task.
-/
structure Told (e : Engine ν) (fired : List Fired) (failure? : Option Failure)
    (summary : RunSummary) (out : List (Output ν)) (e' : Engine ν) : Prop where
  rounds : ∃ tasks heard last, marks out = heard ++ last ∧ Rounds tasks fired heard
    ∧ summary.tasks = tasks.length
    ∧ e.agenda.tasks ++ scheduled out = tasks ++ e'.agenda.tasks
    ∧ Ending e' last failure?
  reported : reportedFirings out = fired.map (·.reported)
  fired : summary.fired = (reportedFirings out).length
  failed : summary.failed = (reportedFirings out).countP (·.2)
  consecutive : (reportedFirings out).map (·.1.number)
    = List.range' e.nextActivation (reportedFirings out).length

/-- A run is told by its rounds, since the unfinished one reports no firing. -/
theorem Told.of_rounds {e e' : Engine ν} {tasks : List Task} {fired : List Fired}
    {failure? : Option Failure} {out : List (Output ν)} {heard last : List Event}
    (marked : marks out = heard ++ last) (rounds : Rounds tasks fired heard)
    (silent : last.filterMap (·.fired?) = [])
    (order : e.agenda.tasks ++ scheduled out = tasks ++ e'.agenda.tasks)
    (ending : Ending e' last failure?)
    (consecutive : fired.map (·.id.number) = List.range' e.nextActivation fired.length)
    : Told e fired failure? (RunSummary.after {} tasks fired) out e' := by
  have reported : reportedFirings out = fired.map (·.reported) := by
    rw [reportedFirings, marked, List.filterMap_append, rounds.filterMap_fired?, silent,
      List.append_nil]
  refine ⟨⟨tasks, heard, last, marked, rounds, Nat.zero_add _, order, ending⟩, reported, ?_, ?_, ?_⟩
  · rw [reported, List.length_map]
    exact Nat.zero_add _
  · rw [reported, List.countP_map]
    exact Nat.zero_add _
  · rw [reported, List.map_map, List.length_map]
    exact consecutive

/-- Whatever a run from its beginning comes to is told. -/
theorem Goes.told {e e' : Engine ν} {fired : List Fired} {failure? : Option Failure} {r' : Run}
    {out : List (Output ν)} (goes : Goes {} e fired failure? r' out e')
    : Told e fired failure? r'.summary out e' := by
  cases goes with
  | between proceeds =>
    exact .of_rounds (List.append_nil _).symm proceeds.rounds rfl proceeds.order rfl
      proceeds.consecutive
  | stopped proceeds next unfinished quiet =>
    refine .of_rounds (marks_append _ _) proceeds.rounds unfinished.filterMap_fired? ?_
      ⟨rfl, _, _, next, unfinished⟩ proceeds.consecutive
    rw [scheduled_append, quiet, List.append_nil]
    exact proceeds.order

/-- Listeners hear every run, and every partial run, round by round: whatever rules, actions, hooks
and handlers do, one round for each task that is dealt with, in the order of the agenda, and in the
end the unfinished round at which the limit stops the run, if it does. The firings that are reported
are those that the run counts, and their identities follow one another. A listener that is
subscribed hears all of it in this order.
-/
theorem runs_told_in_rounds (e : Engine ν)
    : (∀ steps, let ran := (take {} steps).run e
        Told e (ran.result.1.filterMap (·.fired?)) (ran.result.1.findSome? (·.failure?))
          ran.result.2.summary ran.output ran.engine)
      ∧ (∀ patience, let ran := (run patience).run e
        ∃ fired failure? summary, Told e fired failure? summary ran.output ran.engine
          ∧ (ran.result = none
            ∨ ran.result = some ⟨fired, failure?.elim (.ok summary) .error⟩))
      ∧ ∀ (α : Type) (m : EngineM ν α) (tell : Event → ν) (id : ListenerId) (issued : Nat),
        ((⟨e, ⟨[(id, fun event => .note (tell event) .done)], issued⟩⟩ : Observed ν).perform m).2.1
          = (m.run e).output.filterMap (·.noted? tell) := by
  refine ⟨fun steps => (take_goes {} steps e).told, fun patience => ?_, ?_⟩
  · obtain ⟨engine, output, report⟩ := complete_eq_take patience {} e
    refine ⟨_, _, _, ?_, report⟩
    have told := (take_goes {} patience e).told
    rw [← engine, ← output] at told
    exact told
  · intro α m tell id issued
    simp [Observed.perform, Observed.relay_noting]

end Engine

end RuleEngine
