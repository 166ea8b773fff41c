import Mathlib.Data.List.Nodup
import RuleEngine.Proofs.Engine.Replay
import RuleEngine.Proofs.Engine.Support

/-! The cascade of retractions. A run over an agenda that holds only retractions takes out exactly
the facts that rest on what is gone, in whatever order the retractions wait.
-/

namespace RuleEngine

namespace Engine

open EngineM

variable {ν : Type}

/-- The identities of the tasks on the agenda. -/
def pending (e : Engine ν) : List FactId := e.agenda.tasks.map (·.fact.id)

/-- A stored fact rests on facts if the tracked activation that it names consumed one of them, or
consumed a fact that rests on them in turn.
-/
inductive RestsOn (e : Engine ν) (gone : List FactId) : FactId → Prop where
  | directly {entry : Entry} {t : Tracked} {cause : FactId} (stored : entry ∈ e.store.entries)
    (tracked : t ∈ e.tracked) (origin : entry.origin = .logical t.id)
    (consumed : cause ∈ t.consumed) (lost : cause ∈ gone)
    : RestsOn e gone entry.id
  | indirectly {entry : Entry} {t : Tracked} {cause : FactId} (stored : entry ∈ e.store.entries)
    (tracked : t ∈ e.tracked) (origin : entry.origin = .logical t.id)
    (consumed : cause ∈ t.consumed) (below : RestsOn e gone cause)
    : RestsOn e gone entry.id

theorem RestsOn.stored {e : Engine ν} {gone : List FactId} {id : FactId}
    (rests : e.RestsOn gone id)
    : ∃ entry ∈ e.store.entries, entry.id = id := by
  cases rests with
  | directly stored => exact ⟨_, stored, rfl⟩
  | indirectly stored => exact ⟨_, stored, rfl⟩

/-- Which tasks are on the agenda does not matter, by induction on the dependency. -/
theorem RestsOn.withAgenda {e : Engine ν} {gone gone' : List FactId} (agenda : Agenda)
    (same : ∀ id ∈ gone, id ∈ gone') {id : FactId} (rests : e.RestsOn gone id)
    : RestsOn { e with agenda } gone' id := by
  induction rests with
  | directly stored tracked origin consumed lost =>
    exact .directly stored tracked origin consumed (same _ lost)
  | indirectly stored tracked origin consumed _ ih =>
    exact .indirectly stored tracked origin consumed ih

theorem fallsWith_iff {e : Engine ν} {gone : FactId} {entry : Entry}
    : e.fallsWith gone entry
      ↔ ∃ t ∈ e.tracked, gone ∈ t.consumed ∧ entry.origin = .logical t.id := by
  simp [fallsWith, Entry.isJustifiedBy]

-- --------------------------------------------------------------------------------------
-- One retraction
-- --------------------------------------------------------------------------------------

section

variable {e : Engine ν} {gone : FactId} {ran : Ran ν Unit} {removed : List Entry}

/-- The identity of a stored fact is among those taken out exactly if the fact falls. -/
theorem Withdrawal.mem_ids_iff {stays : Tracked → Bool} {falls : Entry → Bool}
    (withdrawal : Withdrawal stays falls e ran removed) (coherent : e.store.Coherent)
    {entry : Entry} (stored : entry ∈ e.store.entries)
    : entry.id ∈ removed.map (·.id) ↔ falls entry := by
  constructor
  · intro member
    obtain ⟨other, otherMember, same⟩ := List.mem_map.mp member
    obtain ⟨otherStored, otherFalls⟩ := (withdrawal.mem_removed other).mp otherMember
    exact coherent.eq_of_id_eq otherStored stored same ▸ otherFalls
  · intro entryFalls
    exact List.mem_map_of_mem ((withdrawal.mem_removed entry).mpr ⟨stored, entryFalls⟩)

/-- What is taken out leaves nothing but retractions on the agenda. -/
theorem Withdrawal.retractions {stays : Tracked → Bool} {falls : Entry → Bool}
    (withdrawal : Withdrawal stays falls e ran removed)
    (retractions : ∀ t ∈ e.agenda.tasks, t.change = .retracted)
    : ∀ t ∈ ran.engine.agenda.tasks, t.change = .retracted := by
  intro t member
  rw [withdrawal.agenda] at member
  rcases List.mem_append.mp member with waiting | fell
  · exact retractions t waiting
  · obtain ⟨entry, -, rfl⟩ := List.mem_map.mp fell
    rfl

/-- A fact that does not fall with a retraction stays, with the activation that it names. -/
theorem Withdrawal.keeps
    (withdrawal : Withdrawal (!·.consumed.contains gone) (e.fallsWith gone) e ran removed)
    {entry : Entry} {t : Tracked} (stored : entry ∈ e.store.entries) (tracked : t ∈ e.tracked)
    (origin : entry.origin = .logical t.id) (stays : e.fallsWith gone entry = false)
    : entry ∈ ran.engine.store.entries ∧ t ∈ ran.engine.tracked := by
  have apart : gone ∉ t.consumed := by
    intro consumed
    have falls := fallsWith_iff.mpr ⟨t, tracked, consumed, origin⟩
    simp [stays] at falls
  refine ⟨?_, ?_⟩
  · rw [withdrawal.entries]
    exact List.mem_filter.mpr ⟨stored, by simp [stays]⟩
  · rw [withdrawal.tracked]
    exact List.mem_filter.mpr ⟨tracked, by simpa using apart⟩

/-- What rests on a retracted fact and others is what falls with it, and what afterwards rests on
the others and on what fell; by induction on the dependency, one way and the other.
-/
theorem Withdrawal.restsOn_iff
    (withdrawal : Withdrawal (!·.consumed.contains gone) (e.fallsWith gone) e ran removed)
    {others : List FactId} {id : FactId}
    : e.RestsOn (gone :: others) id
      ↔ id ∈ removed.map (·.id) ∨ ran.engine.RestsOn (others ++ removed.map (·.id)) id := by
  have fell {entry : Entry} (stored : entry ∈ e.store.entries) (falls : e.fallsWith gone entry)
      : entry.id ∈ removed.map (·.id) :=
    List.mem_map_of_mem ((withdrawal.mem_removed entry).mpr ⟨stored, falls⟩)
  have rested {cause : FactId} (taken : cause ∈ removed.map (·.id))
      : e.RestsOn (gone :: others) cause := by
    obtain ⟨entry, member, rfl⟩ := List.mem_map.mp taken
    obtain ⟨stored, falls⟩ := (withdrawal.mem_removed entry).mp member
    obtain ⟨t, tracked, consumed, origin⟩ := fallsWith_iff.mp falls
    exact .directly stored tracked origin consumed (List.mem_cons_self ..)
  have storedBefore {entry : Entry} (stored : entry ∈ ran.engine.store.entries)
      : entry ∈ e.store.entries := by
    rw [withdrawal.entries] at stored
    exact (List.mem_filter.mp stored).1
  have trackedBefore {t : Tracked} (tracked : t ∈ ran.engine.tracked) : t ∈ e.tracked := by
    rw [withdrawal.tracked] at tracked
    exact (List.mem_filter.mp tracked).1
  constructor
  · intro rests
    induction rests with
    | @directly entry t cause stored tracked origin consumed lost =>
      cases falls : e.fallsWith gone entry with
      | true => exact .inl (fell stored falls)
      | false =>
        obtain ⟨stored', tracked'⟩ := withdrawal.keeps stored tracked origin falls
        rcases List.mem_cons.mp lost with rfl | other
        · have falling := fallsWith_iff.mpr ⟨t, tracked, consumed, origin⟩
          simp [falls] at falling
        · exact .inr (.directly stored' tracked' origin consumed (List.mem_append_left _ other))
    | @indirectly entry t cause stored tracked origin consumed below ih =>
      cases falls : e.fallsWith gone entry with
      | true => exact .inl (fell stored falls)
      | false =>
        obtain ⟨stored', tracked'⟩ := withdrawal.keeps stored tracked origin falls
        rcases ih with taken | rests
        · exact .inr (.directly stored' tracked' origin consumed (List.mem_append_right _ taken))
        · exact .inr (.indirectly stored' tracked' origin consumed rests)
  · rintro (taken | rests)
    · exact rested taken
    · induction rests with
      | directly stored tracked origin consumed lost =>
        rcases List.mem_append.mp lost with other | taken
        · exact .directly (storedBefore stored) (trackedBefore tracked) origin consumed
            (List.mem_cons_of_mem _ other)
        · exact .indirectly (storedBefore stored) (trackedBefore tracked) origin consumed
            (rested taken)
      | indirectly stored tracked origin consumed _ ih =>
        exact .indirectly (storedBefore stored) (trackedBefore tracked) origin consumed ih

end

-- --------------------------------------------------------------------------------------
-- The whole cascade
-- --------------------------------------------------------------------------------------

/-- The facts `withdrawn` are taken out, in this order: those that rest on the pending ones. The
activations that consumed a pending or a withdrawn fact are dropped, and nothing is left to do.
-/
structure Cascade (e e' : Engine ν) (out : List (Output ν)) (withdrawn : List FactId) : Prop where
  mem_withdrawn : ∀ id, id ∈ withdrawn ↔ e.RestsOn e.pending id
  distinct : withdrawn.Nodup
  coherent : e'.store.Coherent
  entries : e'.store.entries = e.store.entries.filter fun entry => entry.id ∉ withdrawn
  next : e'.store.next = e.store.next
  tracked : e'.tracked = e.tracked.filter fun t =>
    t.consumed.all fun id => id ∉ e.pending ∧ id ∉ withdrawn
  agenda : e'.agenda.tasks = []
  others : e'.config = e.config ∧ e'.registry = e.registry ∧ e'.definitions = e.definitions
    ∧ e'.nextActivation = e.nextActivation
  published : out.filterMap (·.withdrawn?) = withdrawn

/-- Nothing falls when nothing is pending. -/
theorem Cascade.idle {e : Engine ν} (coherent : e.store.Coherent) (idle : e.agenda.tasks = [])
    : Cascade e e [] [] where
  mem_withdrawn id := by
    have none : e.pending = [] := by simp [pending, idle]
    constructor
    · intro member
      cases member
    · intro rests
      rw [none] at rests
      induction rests with
      | directly _ _ _ _ lost => cases lost
      | indirectly _ _ _ _ _ ih => cases ih
  distinct := .nil
  coherent := coherent
  entries := (List.filter_eq_self.mpr (by simp)).symm
  next := rfl
  tracked := (List.filter_eq_self.mpr (by simp [pending, idle])).symm
  agenda := idle
  others := ⟨rfl, rfl, rfl, rfl⟩
  published := rfl

/-- A retraction and the cascade after it make one cascade. -/
theorem Cascade.step {e e' : Engine ν} {t : Task} {agenda : Agenda} {ran : Ran ν Unit}
    {removed : List Entry} {out : List (Output ν)} {withdrawn : List FactId}
    (coherent : e.store.Coherent) (taken : e.agenda.next? = some (t, agenda))
    (withdrawal : Withdrawal (!·.consumed.contains t.fact.id)
      (fallsWith { e with agenda } t.fact.id) { e with agenda } ran removed)
    (rest : Cascade ran.engine e' out withdrawn)
    : Cascade e e' (ran.output ++ out) (removed.map (·.id) ++ withdrawn) := by
  have before : e.pending = t.fact.id :: agenda.tasks.map (·.fact.id) := by
    simp [pending, Agenda.tasks_of_next? taken]
  have after : ran.engine.pending
      = agenda.tasks.map (·.fact.id) ++ removed.map (·.id) := by
    simp [pending, withdrawal.agenda, Entry.loss, Entry.id, Function.comp_def]
  have falls_iff {entry : Entry} (stored : entry ∈ e.store.entries)
      : entry.id ∈ removed.map (·.id) ↔ fallsWith { e with agenda } t.fact.id entry :=
    withdrawal.mem_ids_iff coherent stored
  refine ⟨?_, ?_, rest.coherent, ?_, rest.next.trans withdrawal.next, ?_, rest.agenda, ?_, ?_⟩
  · intro id
    rw [List.mem_append, rest.mem_withdrawn, after, before, ← withdrawal.restsOn_iff]
    constructor
    · intro rests
      exact rests.withAgenda e.agenda fun _ member => member
    · intro rests
      exact rests.withAgenda agenda fun _ member => member
  · refine List.nodup_append.mpr ⟨withdrawal.distinct, rest.distinct, ?_⟩
    intro id first id' later same
    obtain ⟨entry, kept, sameId⟩ := ((rest.mem_withdrawn id').mp later).stored
    rw [withdrawal.entries] at kept
    obtain ⟨stored, stays⟩ := List.mem_filter.mp kept
    rw [same, ← sameId] at first
    simp [(falls_iff stored).mp first] at stays
  · rw [rest.entries, withdrawal.entries, List.filter_filter]
    apply List.filter_congr
    intro entry stored
    have falls := falls_iff stored
    rw [Bool.eq_iff_iff]
    simp only [List.mem_append, Bool.and_eq_true, decide_eq_true_eq, falls]
    simp [and_comm]
  · rw [rest.tracked, withdrawal.tracked, List.filter_filter, before, after]
    apply List.filter_congr
    intro tracked _
    rw [Bool.eq_iff_iff]
    simp only [Bool.and_eq_true, List.all_eq_true, decide_eq_true_eq, List.mem_append,
      List.mem_cons, not_or]
    constructor
    · rintro ⟨kept, apart⟩ id consumed
      obtain ⟨⟨waiting, fell⟩, later⟩ := kept id consumed
      refine ⟨⟨?_, waiting⟩, fell, later⟩
      rintro rfl
      simp [consumed] at apart
    · intro kept
      refine ⟨?_, ?_⟩
      · intro id consumed
        obtain ⟨⟨-, waiting⟩, fell, later⟩ := kept id consumed
        exact ⟨⟨waiting, fell⟩, later⟩
      · have apart : t.fact.id ∉ tracked.consumed := fun consumed => (kept _ consumed).1.1 rfl
        simpa using apart
  · exact ⟨rest.others.1.trans withdrawal.others.1, rest.others.2.1.trans withdrawal.others.2.1,
      rest.others.2.2.1.trans withdrawal.others.2.2.1,
      rest.others.2.2.2.trans withdrawal.others.2.2.2⟩
  · rw [List.filterMap_append, withdrawal.published, rest.published]

-- --------------------------------------------------------------------------------------
-- Runs
-- --------------------------------------------------------------------------------------

/-- Every fact that is taken out was stored, and is counted once. -/
theorem Withdrawal.size {stays : Tracked → Bool} {falls : Entry → Bool} {e : Engine ν}
    {ran : Ran ν Unit} {removed : List Entry} (withdrawal : Withdrawal stays falls e ran removed)
    (coherent : e.store.Coherent)
    : removed.length + ran.engine.store.size = e.store.size := by
  have entriesDistinct : e.store.entries.Nodup := coherent.ascending.imp fun below same => by
    rw [same] at below
    exact Nat.lt_irrefl _ below
  have fallen : removed.Perm (e.store.entries.filter falls) := by
    refine (List.perm_ext_iff_of_nodup withdrawal.distinct.of_map
      (entriesDistinct.filter falls)).mpr ?_
    intro entry
    rw [withdrawal.mem_removed, List.mem_filter]
  have whole := (List.filter_append_perm falls e.store.entries).length_eq
  rw [List.length_append] at whole
  rw [fallen.length_eq, Store.size, withdrawal.entries, Store.size]
  exact whole

/-- Once all that is pending is a retraction, one `advance` goes through the whole cascade. A task
for each pending and for each withdrawn fact is dealt with, each of which leaves one fact or one
task fewer; by induction on the number of tasks that may be dealt with.
-/
theorem advance_cascade {e : Engine ν} (settled : e.Settled)
    (retractions : ∀ t ∈ e.agenda.tasks, t.change = .retracted) (most : Nat) (r : Run)
    (enough : e.store.size + e.agenda.size ≤ most)
    : ∃ withdrawn,
        Cascade e ((advance most r).run e).engine ((advance most r).run e).output withdrawn
        ∧ ((advance most r).run e).result
          = (.idle, { r with summary :=
              { r.summary with tasks := r.summary.tasks + e.pending.length + withdrawn.length } })
    := by
  induction most generalizing e r with
  | zero =>
    have none : e.agenda.tasks = [] := List.length_eq_zero_iff.mp (by
      unfold Agenda.size at enough
      omega)
    exact ⟨[], .idle settled.coherent none, by simp [advance, pending, none]⟩
  | succ most ih =>
    cases taken : e.agenda.next? with
    | none =>
      have none : e.agenda.tasks = [] := by
        cases tasks : e.agenda.tasks with
        | nil => rfl
        | cons => simp [Agenda.next?, tasks] at taken
      have unchanged : (advance (most + 1) r).run e = ⟨(.idle, r), e, []⟩ := by
        simp [advance, taken]
      rw [unchanged]
      exact ⟨[], .idle settled.coherent none, by simp [pending, none]⟩
    | some first =>
      obtain ⟨t, agenda⟩ := first
      have tasks := Agenda.tasks_of_next? taken
      have retracted : t.change = .retracted := retractions t (by simp [tasks])
      have begun := settled.taken taken
      obtain ⟨removed, withdrawal⟩ := maintainSupport_withdrawal begun t.fact.id
      have dealt := settled.process taken (Engine.mayFire e.config r.summary)
      have stepped := process_retracted retracted (Engine.mayFire e.config r.summary)
        { e with agenda }
      rw [stepped] at dealt
      generalize (maintainSupport t.fact.id).run { e with agenda } = ran
        at withdrawal dealt stepped
      have onward : ∀ task ∈ ran.engine.agenda.tasks, task.change = .retracted :=
        withdrawal.retractions fun task waiting => retractions task (by simp [tasks, waiting])
      have size : removed.length + ran.engine.store.size = e.store.size :=
        withdrawal.size begun.coherent
      have after : ran.engine.agenda.size = agenda.size + removed.length := by
        simp [Agenda.size, withdrawal.agenda]
      have before : e.agenda.size = agenda.size + 1 := by simp [Agenda.size, tasks]
      obtain ⟨withdrawn, rest, result⟩ := ih dealt onward { r with summary := r.summary.countTask }
        (by simp only; omega)
      refine ⟨removed.map (·.id) ++ withdrawn, ?_, ?_⟩
      · have joined := Cascade.step settled.coherent taken withdrawal rest
        simpa [advance, taken, stepped] using joined
      · have left : ran.engine.pending.length = agenda.size + removed.length := by
          rw [← after]
          exact List.length_map ..
        have waiting : e.pending.length = agenda.size + 1 := by
          rw [← before]
          exact List.length_map ..
        simp only [advance, taken, stepped, run_bind, run_get, run_modify]
        rw [result, left, waiting]
        have count : r.summary.tasks + 1 + (agenda.size + removed.length) + withdrawn.length
            = r.summary.tasks + (agenda.size + 1) + (removed.length + withdrawn.length) := by
          omega
        simp only [RunSummary.countTask, List.length_append, List.length_map, count]

/-- A run goes through the whole cascade and fires nothing. -/
theorem run_cascade {e : Engine ν} (settled : e.Settled)
    (retractions : ∀ t ∈ e.agenda.tasks, t.change = .retracted) (patience : Nat)
    : ∃ withdrawn,
        Cascade e ((run (patience + 1)).run e).engine ((run (patience + 1)).run e).output withdrawn
        ∧ ((run (patience + 1)).run e).result
          = some ⟨[], .ok ⟨e.pending.length + withdrawn.length, 0, 0⟩⟩ := by
  obtain ⟨withdrawn, cascade, result⟩ := advance_cascade settled retractions
    (e.store.size + e.agenda.size + 1) {} (Nat.le_succ _)
  cases ran : (advance (e.store.size + e.agenda.size + 1) {}).run e with
  | mk reached e' out =>
    rw [ran] at cascade result
    have ends : (run (patience + 1)).run e
        = ⟨some ⟨[], .ok ⟨e.pending.length + withdrawn.length, 0, 0⟩⟩, e', out⟩ := by
      simp only at result
      simp [run, complete, next, ran, result]
    rw [ends]
    exact ⟨withdrawn, cascade, rfl⟩

-- --------------------------------------------------------------------------------------
-- The order of the retractions
-- --------------------------------------------------------------------------------------

/-- An engine stays settled when the tasks on its agenda change places. -/
theorem Settled.reorder {e : Engine ν} (settled : e.Settled) {tasks : List Task}
    (same : tasks.Perm e.agenda.tasks)
    : ({ e with agenda := ⟨tasks⟩ } : Engine ν).Settled := by
  refine ⟨settled.coherent, settled.issued, settled.distinct, settled.justified, ?_⟩
  intro t tracked id consumed
  rcases settled.supported t tracked id consumed with stored | ⟨task, waiting, loss⟩ | held
  · exact .inl stored
  · exact .inr (.inl ⟨task, same.mem_iff.mpr waiting, loss⟩)
  · exact held.elim

/-- Where a cascade ends depends on which retractions wait, and not on their order. -/
theorem Cascade.ends_same {e e' other : Engine ν} {out out' : List (Output ν)} {agenda : Agenda}
    {withdrawn withdrawn' : List FactId} (cascade : Cascade e e' out withdrawn)
    (cascade' : Cascade { e with agenda } other out' withdrawn')
    (same : ∀ id, id ∈ pending { e with agenda } ↔ id ∈ e.pending)
    : other.store = e'.store ∧ other.tracked = e'.tracked := by
  have members (id : FactId) : id ∈ withdrawn' ↔ id ∈ withdrawn := by
    rw [cascade'.mem_withdrawn, cascade.mem_withdrawn]
    constructor
    · intro rests
      exact rests.withAgenda e.agenda fun id member => (same id).mp member
    · intro rests
      exact rests.withAgenda agenda fun id member => (same id).mpr member
  refine ⟨cascade'.coherent.ext cascade.coherent ?_ (cascade'.next.trans cascade.next.symm), ?_⟩
  · rw [cascade'.entries, cascade.entries]
    exact List.filter_congr fun entry _ => by simp [members]
  · rw [cascade'.tracked, cascade.tracked]
    exact List.filter_congr fun t _ => by simp [members, same]

/-- No fact is pending twice if only retractions are, because a fact goes at most once. -/
theorem AccountedBy.pending_nodup {e : Engine ν} {out : List (Output ν)} {done : List Task}
    (accounted : e.AccountedBy out done)
    (retractions : ∀ t ∈ e.agenda.tasks, t.change = .retracted)
    : e.pending.Nodup := by
  refine List.nodup_iff_count_le_one.mpr fun id => ?_
  have counted : e.pending.count id = (changesOf id e.agenda.tasks).length := by
    rw [pending, List.count_eq_countP, List.countP_map, List.countP_eq_length_filter]
    rfl
  rw [counted]
  have retracted : ∀ t ∈ changesOf id e.agenda.tasks, t.change = .retracted := fun t member =>
    retractions t (List.mem_filter.mp member).1
  have whole : changesOf id (scheduled out) = changesOf id done ++ changesOf id e.agenda.tasks := by
    rw [accounted.dealt]
    exact List.filter_append ..
  by_cases issued : e.store.Issued id
  · obtain ⟨f, changes⟩ := accounted.changesOf_issued issued
    rw [whole] at changes
    -- What waits is the end of the changes, and no assertion is among it.
    cases before : changesOf id done with
    | nil =>
      have first : (⟨.asserted, f⟩ : Task) ∈ changesOf id e.agenda.tasks := by
        rcases changes with once | twice <;> simp_all
      cases retracted _ first
    | cons t rest =>
      rcases changes with once | twice
      · have lengths := congrArg List.length once
        simp [before] at lengths
        simp [lengths]
      · have lengths := congrArg List.length twice
        simp [before] at lengths
        omega
  · have none := accounted.logged.changesOf_unissued issued
    rw [whole] at none
    simp [(List.append_eq_nil_iff.mp none).2]

/-- A run from an agenda that holds only retractions computes the dependency closure of what is
pending, wherever in a history it begins: it fires nothing, it deals with one task for each pending
and each withdrawn fact, and it leaves the same facts and activations whatever the order of the
retractions.
-/
theorem run_of_retractions {e : Engine ν} {out : List (Output ν)} {done : List Task}
    (history : History e out done) (retractions : ∀ t ∈ e.agenda.tasks, t.change = .retracted)
    (patience : Nat)
    : e.pending.Nodup
      ∧ (∃ withdrawn,
          Cascade e ((run (patience + 1)).run e).engine ((run (patience + 1)).run e).output
            withdrawn
          ∧ ((run (patience + 1)).run e).result
            = some ⟨[], .ok ⟨e.pending.length + withdrawn.length, 0, 0⟩⟩)
      ∧ ∀ tasks, tasks.Perm e.agenda.tasks →
          ((run (patience + 1)).run { e with agenda := ⟨tasks⟩ }).engine.store
            = ((run (patience + 1)).run e).engine.store
          ∧ ((run (patience + 1)).run { e with agenda := ⟨tasks⟩ }).engine.tracked
            = ((run (patience + 1)).run e).engine.tracked := by
  have settled := settled_of_history history
  obtain ⟨withdrawn, cascade, result⟩ := run_cascade settled retractions patience
  refine ⟨history.accounted.pending_nodup retractions, ⟨withdrawn, cascade, result⟩, ?_⟩
  intro tasks same
  obtain ⟨withdrawn', cascade', -⟩ := run_cascade (settled.reorder same)
    (fun t member => retractions t (same.mem_iff.mp member)) patience
  exact cascade.ends_same cascade' fun id => (same.map _).mem_iff

/-- In the sample the call rests on the sensor through the alarm, and both go with it. -/
theorem sample_run_of_retractions
    : (∀ t ∈ Sample.cut.engine.agenda.tasks, t.change = .retracted)
      ∧ (∃ done, History Sample.cut.engine (Sample.linked.output ++ Sample.cut.output) done)
      ∧ (∃ withdrawn,
          Cascade Sample.cut.engine ((run 1).run Sample.cut.engine).engine
            ((run 1).run Sample.cut.engine).output withdrawn
          ∧ withdrawn = [⟨2⟩, ⟨3⟩]
          ∧ ((run 1).run Sample.cut.engine).result = some ⟨[], .ok ⟨3, 0, 0⟩⟩)
      ∧ ((run 1).run Sample.cut.engine).engine.store.isEmpty := by
  have retractions : ∀ t ∈ Sample.cut.engine.agenda.tasks, t.change = .retracted := by
    decide +kernel
  obtain ⟨done, history⟩ := Sample.history
  obtain ⟨-, ⟨withdrawn, cascade, result⟩, -⟩ := run_of_retractions history retractions 0
  have both : withdrawn = [⟨2⟩, ⟨3⟩] := by
    rw [← cascade.published]
    decide +kernel
  subst both
  exact ⟨retractions, ⟨done, history⟩, ⟨_, cascade, rfl, result⟩, by decide +kernel⟩

end Engine

end RuleEngine
