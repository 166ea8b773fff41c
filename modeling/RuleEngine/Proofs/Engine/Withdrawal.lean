import RuleEngine.Engine.Support
import RuleEngine.Proofs.Store.Coherence

/-! What it takes to withdraw support: the activations that lost a fact are dropped, the facts that
they justify are taken out, each once, and nothing else changes but the agenda.
-/

namespace RuleEngine

/-- The fact whose withdrawal an event reports. -/
def Event.withdrawn? : Event → Option FactId
  | logicalRetracted fact _ => some fact
  | _ => none

def Output.withdrawn? {ν : Type} : Output ν → Option FactId
  | event e => e.withdrawn?
  | _ => none

/-- The task that a fact which was taken out leaves on the agenda. -/
def Entry.loss (entry : Entry) : Task := ⟨.retracted, entry.fact⟩

namespace Engine

open EngineM

variable {ν : Type}

/-- The entries `removed` are taken out, in this order: those of the stored ones that fall. Of the
activations those are kept that stay.
-/
structure Withdrawal (stays : Tracked → Bool) (falls : Entry → Bool) (e : Engine ν)
    (ran : Ran ν Unit) (removed : List Entry) : Prop where
  coherent : ran.engine.store.Coherent
  entries : ran.engine.store.entries = e.store.entries.filter (!falls ·)
  next : ran.engine.store.next = e.store.next
  tracked : ran.engine.tracked = e.tracked.filter stays
  agenda : ran.engine.agenda.tasks = e.agenda.tasks ++ removed.map (·.loss)
  others : ran.engine.config = e.config ∧ ran.engine.registry = e.registry
    ∧ ran.engine.definitions = e.definitions ∧ ran.engine.nextActivation = e.nextActivation
  mem_removed : ∀ entry, entry ∈ removed ↔ entry ∈ e.store.entries ∧ falls entry
  distinct : (removed.map (·.id)).Nodup
  published : ran.output.filterMap (·.withdrawn?) = removed.map (·.id)

namespace Withdrawal

variable {stays stays' : Tracked → Bool} {falls falls' : Entry → Bool} {e : Engine ν}
  {ran : Ran ν Unit} {removed : List Entry}

/-- Only what holds of the stored facts and the tracked activations counts. -/
theorem congr (withdrawal : Withdrawal stays falls e ran removed)
    (sameStays : ∀ t ∈ e.tracked, stays t = stays' t)
    (sameFalls : ∀ entry ∈ e.store.entries, falls entry = falls' entry)
    : Withdrawal stays' falls' e ran removed where
  coherent := withdrawal.coherent
  entries := by
    rw [withdrawal.entries]
    exact List.filter_congr fun entry member => by rw [sameFalls entry member]
  next := withdrawal.next
  tracked := withdrawal.tracked.trans (List.filter_congr sameStays)
  agenda := withdrawal.agenda
  others := withdrawal.others
  mem_removed entry := by
    rw [withdrawal.mem_removed]
    exact and_congr_right fun member => by rw [sameFalls entry member]
  distinct := withdrawal.distinct
  published := withdrawal.published

/-- Nothing is taken out if nothing falls. -/
theorem quiet (coherent : e.store.Coherent) {out : List (Output ν)} {kept : List Tracked}
    (keeps : kept = e.tracked.filter stays) (silent : out.filterMap (·.withdrawn?) = [])
    : Withdrawal stays (fun _ => false) e ⟨(), { e with tracked := kept }, out⟩ [] where
  coherent := coherent
  entries := (List.filter_eq_self.mpr fun _ _ => rfl).symm
  next := rfl
  tracked := keeps
  agenda := by simp
  others := ⟨rfl, rfl, rfl, rfl⟩
  mem_removed := by simp
  distinct := .nil
  published := silent

/-- To do nothing is to take out nothing. -/
theorem nothing (coherent : e.store.Coherent)
    : Withdrawal (fun _ => true) (fun _ => false) e ⟨(), e, []⟩ [] :=
  quiet coherent (List.filter_eq_self.mpr fun _ _ => rfl).symm rfl

/-- Withdrawals compose; the second finds the facts that the first left. -/
theorem andThen (coherent : e.store.Coherent) {f : Unit → EngineM ν Unit} {m : EngineM ν Unit}
    {more : List Entry} (first : Withdrawal stays falls e (m.run e) removed)
    (second : Withdrawal stays' falls' (m.run e).engine ((f ()).run (m.run e).engine) more)
    : Withdrawal (fun t => stays t && stays' t) (fun entry => falls entry || falls' entry) e
        ((m >>= f).run e) (removed ++ more) where
  coherent := second.coherent
  entries := by
    simp only [run_bind, second.entries, first.entries, List.filter_filter]
    exact List.filter_congr fun entry _ => by cases falls entry <;> cases falls' entry <;> rfl
  next := second.next.trans first.next
  tracked := by
    simp only [run_bind, second.tracked, first.tracked, List.filter_filter]
    exact List.filter_congr fun t _ => Bool.and_comm _ _
  agenda := by
    simp only [run_bind, second.agenda, first.agenda, List.map_append, List.append_assoc]
  others := ⟨second.others.1.trans first.others.1, second.others.2.1.trans first.others.2.1,
    second.others.2.2.1.trans first.others.2.2.1, second.others.2.2.2.trans first.others.2.2.2⟩
  mem_removed entry := by
    rw [List.mem_append, first.mem_removed, second.mem_removed, first.entries, List.mem_filter]
    cases falls entry <;> simp
  distinct := by
    rw [List.map_append]
    refine List.nodup_append.mpr ⟨first.distinct, second.distinct, ?_⟩
    intro id before id' after same
    obtain ⟨entry, taken, rfl⟩ := List.mem_map.mp before
    obtain ⟨other, left, rfl⟩ := List.mem_map.mp after
    obtain ⟨stored, gone⟩ := (first.mem_removed entry).mp taken
    obtain ⟨kept, -⟩ := (second.mem_removed other).mp left
    rw [first.entries] at kept
    obtain ⟨stored', stayed⟩ := List.mem_filter.mp kept
    rw [coherent.eq_of_id_eq stored stored' same] at gone
    simp [gone] at stayed
  published := by
    simp only [run_bind, List.filterMap_append, first.published, second.published,
      List.map_append]

end Withdrawal

/-- A fact that an activation does not justify is left where it is. -/
theorem retractJustified_of_not {e : Engine ν} (coherent : e.store.Coherent)
    {activation : ActivationId} {id : FactId}
    (unjustified : ∀ entry ∈ e.store.entries,
      (entry.id == id && entry.isJustifiedBy activation) = false)
    : Withdrawal (fun _ => true) (fun entry => entry.id == id && entry.isJustifiedBy activation) e
        ((retractJustified activation id).run e) [] := by
  have absent : (e.store.entry? id).any (·.isJustifiedBy activation) = false := by
    cases found : e.store.entry? id with
    | none => rfl
    | some entry =>
      obtain ⟨member, same⟩ := coherent.entry?_eq_some_iff.mp found
      simpa [same] using unjustified entry member
  have unchanged : (retractJustified activation id).run e = ⟨(), e, []⟩ := by
    simp [retractJustified, absent]
  rw [unchanged]
  exact (Withdrawal.nothing coherent).congr (fun _ _ => rfl) fun entry member =>
    (unjustified entry member).symm

/-- A fact that an activation justifies is taken out. -/
theorem retractJustified_of_mem {e : Engine ν} (coherent : e.store.Coherent)
    {activation : ActivationId} {entry : Entry} (member : entry ∈ e.store.entries)
    (justified : entry.isJustifiedBy activation)
    : Withdrawal (fun _ => true)
        (fun other => other.id == entry.id && other.isJustifiedBy activation) e
        ((retractJustified activation entry.id).run e) [entry] := by
  have found := coherent.entry?_eq_some_iff.mpr ⟨member, rfl⟩
  have only {other : Entry} (stored : other ∈ e.store.entries)
      : (other.id == entry.id && other.isJustifiedBy activation) = (other.id == entry.id) := by
    by_cases same : other.id = entry.id
    · rw [coherent.eq_of_id_eq stored member same]
      simp [justified]
    · simp [same]
  cases retracted : e.store.retract? entry.id with
  | none =>
    have stored := Store.contains_iff.mpr ⟨entry, member, rfl⟩
    rw [Store.retract?_eq_none_iff.mp retracted] at stored
    cases stored
  | some taken =>
    obtain ⟨other, store⟩ := taken
    obtain ⟨stored, same, shape⟩ := Store.retract?_eq_some retracted
    obtain rfl := coherent.eq_of_id_eq stored member same
    have run : (retractJustified activation other.id).run e
        = ⟨(), { e with store, agenda := e.agenda.push other.loss },
            [.event (.factRetracted other.fact), .scheduled other.loss,
              .event (.logicalRetracted other.id activation)]⟩ := by
      simp [retractJustified, retract, found, justified, retracted, Entry.loss]
    rw [run]
    exact {
      coherent := coherent.retract retracted
      entries := by
        rw [shape]
        exact List.filter_congr fun entry stored => by rw [only stored]; rfl
      next := by rw [shape]
      tracked := (List.filter_eq_self.mpr fun _ _ => rfl).symm
      agenda := rfl
      others := ⟨rfl, rfl, rfl, rfl⟩
      mem_removed := by
        intro entry
        rw [List.mem_singleton]
        constructor
        · rintro rfl
          exact ⟨member, by simp [justified]⟩
        · rintro ⟨stored, falls⟩
          rw [only stored] at falls
          exact coherent.eq_of_id_eq stored member (by simpa using falls)
      distinct := by simp
      published := rfl
    }

/-- Of some facts those are taken out that the activation justifies, by induction on the facts. -/
theorem retractAllJustified_withdrawal {e : Engine ν} (coherent : e.store.Coherent)
    (activation : ActivationId) (ids : FactIds)
    : ∃ removed, Withdrawal (fun _ => true)
        (fun entry => ids.contains entry.id && entry.isJustifiedBy activation) e
        ((retractAllJustified activation ids).run e) removed := by
  induction ids generalizing e with
  | nil => exact ⟨[], .nothing coherent⟩
  | cons id rest ih =>
    have first : ∃ removed, Withdrawal (fun _ => true)
        (fun entry => entry.id == id && entry.isJustifiedBy activation) e
        ((retractJustified activation id).run e) removed := by
      by_cases some : ∃ entry ∈ e.store.entries, entry.id = id ∧ entry.isJustifiedBy activation
      · obtain ⟨entry, member, rfl, justified⟩ := some
        exact ⟨_, retractJustified_of_mem coherent member justified⟩
      · refine ⟨_, retractJustified_of_not coherent fun entry member => ?_⟩
        simpa using fun same just => some ⟨entry, member, same, just⟩
    obtain ⟨removed, taken⟩ := first
    obtain ⟨more, later⟩ := ih taken.coherent
    refine ⟨removed ++ more, (taken.andThen coherent later).congr (fun _ _ => rfl) ?_⟩
    intro entry _
    rw [List.contains_cons, Bool.and_or_distrib_right]

/-- An activation that is taken back is dropped, and what it justifies is taken out. -/
theorem takeBack_withdrawal {e : Engine ν} (coherent : e.store.Coherent) (cause : FactId)
    (t : Tracked)
    : ∃ removed, Withdrawal (·.id != t.id)
        (fun entry => t.produced.contains entry.id && entry.isJustifiedBy t.id) e
        ((takeBack cause t).run e) removed := by
  let dropped : Engine ν := { e with tracked := e.tracked.filter (·.id != t.id) }
  obtain ⟨removed, taken⟩ := retractAllJustified_withdrawal (e := dropped) coherent t.id t.produced
  have begun : Withdrawal (·.id != t.id) (fun _ => false) e
      ((do
        EngineM.modify fun e => { e with tracked := e.tracked.filter (·.id != t.id) }
        EngineM.emit (.activationInvalidated t.id t.rule cause) : EngineM ν Unit).run e) [] :=
    Withdrawal.quiet coherent rfl rfl
  exact ⟨_, (begun.andThen coherent (f := fun _ => retractAllJustified t.id t.produced) taken).congr
    (fun _ _ => Bool.and_true _) fun _ _ => Bool.false_or _⟩

/-- Activations that are taken back are dropped with what they justify, by induction. -/
theorem takeBackAll_withdrawal {e : Engine ν} (coherent : e.store.Coherent) (cause : FactId)
    (ts : List Tracked)
    : ∃ removed, Withdrawal (fun t => !ts.any fun lost => t.id == lost.id)
        (fun entry => ts.any fun t => t.produced.contains entry.id && entry.isJustifiedBy t.id) e
        ((takeBackAll cause ts).run e) removed := by
  induction ts generalizing e with
  | nil => exact ⟨[], .nothing coherent⟩
  | cons t rest ih =>
    obtain ⟨removed, taken⟩ := takeBack_withdrawal coherent cause t
    obtain ⟨more, later⟩ := ih taken.coherent
    refine ⟨removed ++ more, (taken.andThen coherent later).congr ?_ fun _ _ => ?_⟩
    · intro other _
      rw [List.any_cons, Bool.not_or]
      rfl
    · rw [List.any_cons]

end Engine

end RuleEngine
