import RuleEngine.Engine.Observed
import RuleEngine.Proofs.Engine.History
import RuleEngine.Proofs.Store.Coherence

/-! The three records that an engine keeps of its facts: the events that it publishes, the tasks
that it schedules, and the store. They agree at every point between two tasks, and the tasks are
dealt with in the order in which they were scheduled.
-/

namespace RuleEngine

-- --------------------------------------------------------------------------------------
-- Carrying out changes
-- --------------------------------------------------------------------------------------

/-- Carries out a change on a list of facts. -/
def Task.apply (facts : List Fact) (t : Task) : List Fact :=
  match t.change with
  | .asserted => facts ++ [t.fact]
  | .retracted => facts.filter (·.id != t.fact.id)

/-- Carries out changes from the beginning. -/
def replay (log : List Task) : List Fact := log.foldl Task.apply []

@[simp]
theorem replay_append_singleton (log : List Task) (t : Task)
    : replay (log ++ [t]) = Task.apply (replay log) t := by
  simp [replay]

/-- The changes of one fact among others. -/
def changesOf (id : FactId) (log : List Task) : List Task := log.filter (·.fact.id == id)

/-- A store has issued an identity. The first one is the identity 1. -/
def Store.Issued (s : Store) (id : FactId) : Prop := 0 < id.number ∧ id.number < s.next

/-- A log accounts for a store: replayed it gives the stored facts, each fact that is stored came
once, and each that is gone came once and then went once.
-/
structure Store.LoggedBy (s : Store) (log : List Task) : Prop where
  begun : 0 < s.next
  replayed : replay log = s.facts
  issued : ∀ t ∈ log, s.Issued t.fact.id
  stored : ∀ entry ∈ s.entries, changesOf entry.id log = [⟨.asserted, entry.fact⟩]
  gone : ∀ id, s.Issued id → s.contains id = false →
    ∃ f, changesOf id log = [⟨.asserted, f⟩, ⟨.retracted, f⟩]

namespace Store.LoggedBy

variable {s s' : Store} {log : List Task}

/-- The empty log accounts for an empty store. -/
theorem empty : LoggedBy {} [] := by
  refine ⟨Nat.one_pos, rfl, by simp, by simp, ?_⟩
  intro id issued
  exact absurd issued.2 (Nat.not_lt.mpr issued.1)

/-- No change of a fact is logged under an identity that was not issued. -/
theorem changesOf_unissued (logged : s.LoggedBy log) {id : FactId} (fresh : ¬s.Issued id)
    : changesOf id log = [] := by
  apply List.filter_eq_nil_iff.mpr
  intro t member
  have differ : t.fact.id ≠ id := fun same => fresh (same ▸ logged.issued t member)
  simpa using differ

/-- The change of one fact is not among those of another. -/
theorem changesOf_append_of_ne {id : FactId} {t : Task} (differ : t.fact.id ≠ id)
    : changesOf id (log ++ [t]) = changesOf id log := by
  simp [changesOf, List.filter_append, differ]

theorem changesOf_append_self (t : Task)
    : changesOf t.fact.id (log ++ [t]) = changesOf t.fact.id log ++ [t] := by
  simp [changesOf, List.filter_append]

/-- Logging an asserted fact accounts for the store with it. -/
theorem assert (logged : s.LoggedBy log) (coherent : s.Coherent) {r : Record} {origin : Origin}
    {entry : Entry} (asserted : s.assert r origin = .ok (entry, s'))
    : s'.LoggedBy (log ++ [⟨.asserted, entry.fact⟩]) := by
  obtain ⟨fresh, -, rfl⟩ := assert_eq_ok asserted
  have number : entry.fact.id.number = s.next := congrArg FactId.number fresh
  have unlogged := logged.changesOf_unissued fun issued : s.Issued entry.fact.id =>
    Nat.ne_of_lt issued.2 number
  refine ⟨Nat.succ_pos _, ?_, ?_, ?_, ?_⟩
  · simp [logged.replayed, Task.apply, facts]
  · intro t member
    rcases List.mem_append.mp member with old | last
    · obtain ⟨positive, below⟩ := logged.issued t old
      exact ⟨positive, Nat.lt_succ_of_lt below⟩
    · obtain rfl := List.mem_singleton.mp last
      exact ⟨number ▸ logged.begun, number ▸ Nat.lt_succ_self _⟩
  · intro other member
    rcases List.mem_append.mp member with old | last
    · have below := coherent.issued other old
      have differ : entry.fact.id ≠ other.id := fun same => by
        rw [← same] at below
        omega
      rw [changesOf_append_of_ne differ]
      exact logged.stored other old
    · obtain rfl := List.mem_singleton.mp last
      have joined : changesOf other.fact.id (log ++ [⟨.asserted, other.fact⟩]) = _ :=
        changesOf_append_self ⟨.asserted, other.fact⟩
      rw [unlogged] at joined
      exact joined
  · intro id issued absent
    have absent' := contains_eq_false_iff.mp absent
    have differ : entry.fact.id ≠ id := absent' entry (List.mem_append_right _ (by simp))
    rw [changesOf_append_of_ne differ]
    have apart : s.next ≠ id.number := fun same =>
      differ (fresh.trans (congrArg FactId.mk same))
    have below : id.number < s.next := Nat.lt_of_le_of_ne (Nat.le_of_lt_succ issued.2) apart.symm
    exact logged.gone id ⟨issued.1, below⟩ (contains_eq_false_iff.mpr fun other member =>
      absent' other (List.mem_append_left _ member))

/-- Logging a retracted fact accounts for the store without it. -/
theorem retract (logged : s.LoggedBy log) {id : FactId} {entry : Entry}
    (retracted : s.retract? id = some (entry, s'))
    : s'.LoggedBy (log ++ [⟨.retracted, entry.fact⟩]) := by
  obtain ⟨member, rfl, rfl⟩ := retract?_eq_some retracted
  have came := logged.stored entry member
  refine ⟨logged.begun, ?_, ?_, ?_, ?_⟩
  · rw [replay_append_singleton, logged.replayed]
    simp only [Task.apply, facts, List.filter_map]
    rfl
  · intro t logging
    rcases List.mem_append.mp logging with old | last
    · exact logged.issued t old
    · have here : (⟨.asserted, entry.fact⟩ : Task) ∈ changesOf entry.id log := by simp [came]
      have below := logged.issued _ (List.mem_filter.mp here).1
      exact List.mem_singleton.mp last ▸ below
  · intro other kept
    obtain ⟨stored, apart⟩ := List.mem_filter.mp kept
    have differ : entry.id ≠ other.id := Ne.symm (by simpa using apart)
    rw [changesOf_append_of_ne differ]
    exact logged.stored other stored
  · intro id issued absent
    by_cases same : entry.id = id
    · subst same
      have joined : changesOf entry.id (log ++ [⟨.retracted, entry.fact⟩]) = _ :=
        changesOf_append_self ⟨.retracted, entry.fact⟩
      exact ⟨entry.fact, joined.trans (congrArg (· ++ [_]) came)⟩
    · rw [changesOf_append_of_ne same]
      refine logged.gone id issued (contains_eq_false_iff.mpr fun other stored here => ?_)
      have kept : other ∈ s.entries.filter (·.id != entry.id) :=
        List.mem_filter.mpr ⟨stored, by simpa [here] using Ne.symm same⟩
      exact contains_eq_false_iff.mp absent other kept here

end Store.LoggedBy

-- --------------------------------------------------------------------------------------
-- The records agree
-- --------------------------------------------------------------------------------------

/-- The changes of facts that output publishes, in order. -/
def published {ν : Type} (out : List (Output ν)) : List Task := out.filterMap (·.change?)

/-- The tasks that output records as scheduled, in order. -/
def scheduled {ν : Type} (out : List (Output ν)) : List Task := out.filterMap (·.scheduled?)

variable {ν : Type}

/-- Output as a listener notes it that notes every event. -/
def Output.noted? (tell : Event → ν) : Output ν → Option ν
  | event e => some (tell e)
  | note n => some n
  | scheduled _ | endless => none

/-- A listener that notes every event hears all that is published, in order, and stays
subscribed; by induction on the output.
-/
theorem Observed.relay_noting (tell : Event → ν) (id : ListenerId) (issued : Nat)
    (out : List (Output ν))
    : Observed.relay out ⟨[(id, fun e => .note (tell e) .done)], issued⟩
      = (⟨[(id, fun e => .note (tell e) .done)], issued⟩, out.filterMap (·.noted? tell)) := by
  induction out with
  | nil => rfl
  | cons o rest ih =>
    cases o with
    | event e => simp [relay, Notifier.emit, Notifier.dispatch, Notifier.react, Output.noted?, ih]
    | note n => simp [relay, Output.noted?, ih]
    | scheduled | endless => simp [relay, Output.noted?, ih]

@[simp]
theorem published_append (out more : List (Output ν))
    : published (out ++ more) = published out ++ published more :=
  List.filterMap_append

@[simp]
theorem scheduled_append (out more : List (Output ν))
    : scheduled (out ++ more) = scheduled out ++ scheduled more :=
  List.filterMap_append

theorem published_of_silent {out : List (Output ν)} (silent : ∀ o ∈ out, o.IsSilent)
    : published out = [] :=
  List.filterMap_eq_nil_iff.mpr fun o member => (silent o member).1

theorem scheduled_of_silent {out : List (Output ν)} (silent : ∀ o ∈ out, o.IsSilent)
    : scheduled out = [] :=
  List.filterMap_eq_nil_iff.mpr fun o member => (silent o member).2

/-- What is put out records how the facts and the agenda change: each change of a fact is published
once, and the task for it is appended to the agenda.
-/
structure Recorded (e : Engine ν) (out : List (Output ν)) (e' : Engine ν) : Prop where
  published : published out = scheduled out
  agenda : e'.agenda.tasks = e.agenda.tasks ++ scheduled out
  coherent : e.store.Coherent → e'.store.Coherent
  logged : ∀ log, e.store.Coherent → e.store.LoggedBy log → e'.store.LoggedBy (log ++ scheduled out)

namespace Recorded

/-- Silent output records that neither facts nor agenda change. -/
theorem silent {e e' : Engine ν} {out : List (Output ν)} (silent : ∀ o ∈ out, o.IsSilent)
    (store : e'.store = e.store) (agenda : e'.agenda = e.agenda)
    : Recorded e out e' where
  published := by rw [published_of_silent silent, scheduled_of_silent silent]
  agenda := by simp [agenda, scheduled_of_silent silent]
  coherent coherent := store ▸ coherent
  logged log _ logged := by simpa [store, scheduled_of_silent silent] using logged

theorem composes : Composes (Recorded (ν := ν)) where
  refl e := silent nofun rfl rfl
  trans first rest := {
    published := by simp [first.published, rest.published]
    agenda := by simp [first.agenda, rest.agenda]
    coherent := fun coherent => rest.coherent (first.coherent coherent)
    logged := fun log coherent logged => by
      simpa using rest.logged _ (first.coherent coherent) (first.logged log coherent logged)
  }

/-- Every edit records what it does. -/
theorem edit {author : Option ActivationId} {e e' : Engine ν} {out : List (Output ν)}
    (edit : Edit author e out e')
    : Recorded e out e' := by
  cases edit with
  | report _ harmless =>
    refine silent (fun o member => ?_) rfl rfl
    exact List.mem_singleton.mp member ▸ Output.isSilent_of_isReport harmless
  | note => exact silent (fun o member => List.mem_singleton.mp member ▸ ⟨rfl, rfl⟩) rfl rfl
  | registry | define | undefine => exact silent nofun rfl rfl
  | assert asserted _ =>
    exact ⟨rfl, rfl, fun coherent => coherent.assert asserted,
      fun log coherent logged => logged.assert coherent asserted⟩
  | retract retracted =>
    exact ⟨rfl, rfl, fun coherent => coherent.retract retracted,
      fun log _ logged => logged.retract retracted⟩

theorem edits {author : Option ActivationId} {e e' : Engine ν} {out : List (Output ν)}
    (edits : Edits author e out e')
    : Recorded e out e' :=
  edits.lift composes edit

theorem allowsSilence : AllowsSilence (Recorded (ν := ν)) where
  toComposes := composes
  silent quiet store agenda _ := silent quiet store agenda

end Recorded

-- --------------------------------------------------------------------------------------
-- Histories
-- --------------------------------------------------------------------------------------

/-- What a history records of facts and tasks. -/
structure Engine.AccountedBy (e : Engine ν) (out : List (Output ν)) (done : List Task)
    : Prop where
  published : published out = scheduled out
  dealt : scheduled out = done ++ e.agenda.tasks
  coherent : e.store.Coherent
  logged : e.store.LoggedBy (scheduled out)

/-- What is recorded from one point to the next extends the account. -/
theorem Engine.AccountedBy.extend {e e' : Engine ν} {out more : List (Output ν)}
    {done : List Task} (accounted : e.AccountedBy out done) (recorded : Recorded e more e')
    : e'.AccountedBy (out ++ more) done where
  published := by simp [accounted.published, recorded.published]
  dealt := by simp [accounted.dealt, recorded.agenda]
  coherent := recorded.coherent accounted.coherent
  logged := by simpa using recorded.logged _ accounted.coherent accounted.logged

/-- A fact that ever had an identity came once, and went at most once after it came. -/
theorem Engine.AccountedBy.changesOf_issued {e : Engine ν} {out : List (Output ν)}
    {done : List Task} (accounted : e.AccountedBy out done) {id : FactId}
    (issued : e.store.Issued id)
    : ∃ f, changesOf id (scheduled out) = [⟨.asserted, f⟩]
        ∨ changesOf id (scheduled out) = [⟨.asserted, f⟩, ⟨.retracted, f⟩] := by
  cases stored : e.store.contains id with
  | true =>
    obtain ⟨entry, member, rfl⟩ := Store.contains_iff.mp stored
    exact ⟨entry.fact, .inl (accounted.logged.stored entry member)⟩
  | false =>
    obtain ⟨f, changes⟩ := accounted.logged.gone id issued stored
    exact ⟨f, .inr changes⟩

/-- A history accounts for its engine at every point, by induction on the history. -/
theorem History.accounted {e : Engine ν} {out : List (Output ν)} {done : List Task}
    (history : History e out done)
    : e.AccountedBy out done := by
  have blank (e : Engine ν) (store : e.store = {}) (agenda : e.agenda = {})
      : e.AccountedBy [] [] :=
    ⟨rfl, by simp [scheduled, agenda], store ▸ .empty, store ▸ .empty⟩
  induction history with
  | created config => exact blank _ rfl rfl
  | reset => exact blank _ rfl rfl
  | operated earlier op ih => exact ih.extend (.edits (op.perform_editsBy _))
  | @processed e e' out more done t agenda mayFire fired earlier taken dealt ih =>
    have tasks := Agenda.tasks_of_next? taken
    have taken : { e with agenda }.AccountedBy out (done ++ [t]) :=
      ⟨ih.published, by simp [ih.dealt, tasks], ih.coherent, ih.logged⟩
    exact taken.extend (Engine.process_obeys Recorded.allowsSilence Recorded.edit dealt)
  | @halted e e' out more done t agenda mayFire failure earlier taken dealt ih =>
    have tasks := Agenda.tasks_of_next? taken
    obtain ⟨rfl, silent⟩ := Engine.process_halted dealt
    refine ih.extend (.silent silent rfl ?_)
    cases whole : e.agenda
    simp_all [Agenda.putBack]

/-- The changes that are published, the tasks that are scheduled, and the tasks that were dealt with
or still wait are the same ones in the same order. Replayed they give the stored facts, and each
fact that ever had an identity came once and went at most once, after it came.
-/
theorem History.changes_agree {e : Engine ν} {out : List (Output ν)} {done : List Task}
    (history : History e out done)
    : published out = scheduled out
      ∧ scheduled out = done ++ e.agenda.tasks
      ∧ replay (scheduled out) = e.store.facts
      ∧ (∀ t ∈ scheduled out, e.store.Issued t.fact.id)
      ∧ ∀ id, e.store.Issued id → ∃ f, changesOf id (scheduled out) = [⟨.asserted, f⟩]
          ∨ changesOf id (scheduled out) = [⟨.asserted, f⟩, ⟨.retracted, f⟩] := by
  have accounted := history.accounted
  exact ⟨accounted.published, accounted.dealt, accounted.logged.replayed, accounted.logged.issued,
    fun id issued => accounted.changesOf_issued issued⟩

/-- In the sample the sensor came and went, and its retraction still waits. -/
theorem sample_changes_agree
    : ∃ done, History Sample.cut.engine (Sample.linked.output ++ Sample.cut.output) done
      ∧ scheduled (Sample.linked.output ++ Sample.cut.output)
        = done ++ Sample.cut.engine.agenda.tasks
      ∧ (∃ f, changesOf ⟨1⟩ (scheduled (Sample.linked.output ++ Sample.cut.output))
        = [⟨.asserted, f⟩, ⟨.retracted, f⟩])
      ∧ Sample.cut.engine.agenda.size = 1 := by
  obtain ⟨done, history⟩ := Sample.history
  obtain ⟨-, dealt, -, -, -⟩ := history.changes_agree
  exact ⟨done, history, dealt, ⟨_, rfl⟩, rfl⟩

end RuleEngine
