import RuleEngine.Proofs.Engine.History
import RuleEngine.Proofs.Engine.Withdrawal

/-! The support of logical facts. Between two tasks every logical fact is justified by a tracked
activation, and what a tracked activation consumed is stored unless its retraction waits on the
agenda. Once the agenda is empty, no logical fact has outlived its support.
-/

namespace RuleEngine

namespace Engine

variable {ν : Type}

/-- The retraction of a fact waits on the agenda. -/
def Awaits (e : Engine ν) (id : FactId) : Prop :=
  ∃ t ∈ e.agenda.tasks, t.change = .retracted ∧ t.fact.id = id

/-- Logical facts rest on tracked activations, and these on facts that are stored, or whose
retraction is waiting or `inHand`.
-/
structure Supported (inHand : FactId → Prop) (e : Engine ν) : Prop where
  coherent : e.store.Coherent
  issued : ∀ t ∈ e.tracked, t.id.number < e.nextActivation
  distinct : (e.tracked.map (·.id)).Nodup
  justified : ∀ entry ∈ e.store.entries, ∀ id, entry.origin = .logical id →
    ∃ t ∈ e.tracked, t.id = id ∧ entry.id ∈ t.produced
  supported : ∀ t ∈ e.tracked, ∀ id ∈ t.consumed, e.store.contains id ∨ e.Awaits id ∨ inHand id

-- --------------------------------------------------------------------------------------
-- Tracked activations
-- --------------------------------------------------------------------------------------

/-- Noting a fact adds it to what one activation produced. -/
theorem noteOrigin_eq_map (origin : Origin) (fact : FactId) (tracked : List Tracked)
    : noteOrigin origin fact tracked
      = tracked.map fun t =>
          if origin = .logical t.id then { t with produced := t.produced.insert fact } else t := by
  cases origin with
  | stated => simp [noteOrigin]
  | logical id => simp [noteOrigin, noteProduced, eq_comm]

/-- Noting a fact changes neither the activations nor what they consumed. -/
theorem noteOrigin_keeps {origin : Origin} {fact : FactId} {tracked : List Tracked} {t : Tracked}
    (member : t ∈ noteOrigin origin fact tracked)
    : ∃ old ∈ tracked, t.id = old.id ∧ t.consumed = old.consumed := by
  rw [noteOrigin_eq_map] at member
  obtain ⟨old, oldMember, rfl⟩ := List.mem_map.mp member
  refine ⟨old, oldMember, ?_⟩
  split <;> exact ⟨rfl, rfl⟩

/-- Every activation stays tracked with what it produced, and the one that justifies the noted fact
has produced it.
-/
theorem noteOrigin_grows {origin : Origin} {fact : FactId} {tracked : List Tracked} {t : Tracked}
    (member : t ∈ tracked)
    : ∃ new ∈ noteOrigin origin fact tracked, new.id = t.id
        ∧ (∀ id ∈ t.produced, id ∈ new.produced)
        ∧ (origin = .logical t.id → fact ∈ new.produced) := by
  rw [noteOrigin_eq_map]
  refine ⟨_, List.mem_map_of_mem member, ?_⟩
  split
  · exact ⟨rfl, fun id here => FactIds.mem_insert.mpr (.inr here),
      fun _ => FactIds.mem_insert.mpr (.inl rfl)⟩
  · rename_i differs
    exact ⟨rfl, fun _ => id, fun same => absurd same differs⟩

@[simp]
theorem map_id_noteOrigin (origin : Origin) (fact : FactId) (tracked : List Tracked)
    : (noteOrigin origin fact tracked).map (·.id) = tracked.map (·.id) := by
  rw [noteOrigin_eq_map, List.map_map]
  apply List.map_congr_left
  intro t _
  simp only [Function.comp_apply]
  split <;> rfl

/-- A tracked activation is determined by its identity. -/
theorem eq_of_tracked_id {tracked : List Tracked} (distinct : (tracked.map (·.id)).Nodup)
    {t t' : Tracked} (here : t ∈ tracked) (there : t' ∈ tracked) (same : t.id = t'.id)
    : t = t' := by
  have apart : tracked.Pairwise fun a b => a.id = b.id → a = b :=
    (List.pairwise_map.mp distinct).imp fun differ equal => absurd equal differ
  have flipped : tracked.Pairwise fun a b => b.id = a.id → b = a :=
    (List.pairwise_map.mp distinct).imp fun differ equal => absurd equal.symm differ
  exact apart.forall_of_forall_of_flip (fun _ _ _ => rfl) flipped here there same

-- --------------------------------------------------------------------------------------
-- What keeps facts supported
-- --------------------------------------------------------------------------------------

namespace Supported

variable {inHand : FactId → Prop} {e e' : Engine ν} {out : List (Output ν)}

/-- A new fact is justified by its author, and no support is lost. -/
theorem assert {author : Option ActivationId} (supported : Supported inHand e)
    (running : ∀ id, author = some id → id ∈ e.tracked.map (·.id)) {r : Record} {origin : Origin}
    {entry : Entry} {store : Store} (asserted : e.store.assert r origin = .ok (entry, store))
    (justified : ∀ id, origin = .logical id → author = some id)
    : Supported inHand { e with
        store
        tracked := noteOrigin origin entry.id e.tracked
        agenda := e.agenda.push ⟨.asserted, entry.fact⟩ } := by
  obtain ⟨-, sameOrigin, rfl⟩ := Store.assert_eq_ok asserted
  refine ⟨supported.coherent.assert asserted, ?_, ?_, ?_, ?_⟩
  · intro t member
    obtain ⟨old, oldMember, same, -⟩ := noteOrigin_keeps member
    exact same ▸ supported.issued old oldMember
  · rw [map_id_noteOrigin]
    exact supported.distinct
  · intro other stored id logical
    rcases List.mem_append.mp stored with old | last
    · obtain ⟨t, member, same, produced⟩ := supported.justified other old id logical
      obtain ⟨new, newMember, sameId, grown, -⟩ := noteOrigin_grows member
      exact ⟨new, newMember, sameId.trans same, grown _ produced⟩
    · obtain rfl := List.mem_singleton.mp last
      have logicalOrigin := sameOrigin.symm.trans logical
      obtain ⟨t, member, rfl⟩ := List.mem_map.mp (running id (justified id logicalOrigin))
      obtain ⟨new, newMember, sameId, -, produced⟩ := noteOrigin_grows member
      exact ⟨new, newMember, sameId, produced logicalOrigin⟩
  · intro t member id consumed
    obtain ⟨old, oldMember, -, sameConsumed⟩ := noteOrigin_keeps member
    rcases supported.supported old oldMember id (sameConsumed ▸ consumed)
      with stored | ⟨task, waiting, loss⟩ | held
    · obtain ⟨other, otherMember, same⟩ := Store.contains_iff.mp stored
      exact .inl (Store.contains_iff.mpr ⟨other, List.mem_append_left _ otherMember, same⟩)
    · exact .inr (.inl ⟨task, List.mem_append_left _ waiting, loss⟩)
    · exact .inr (.inr held)

/-- The retraction of a fact that is taken out waits on the agenda. -/
theorem retract (supported : Supported inHand e) {id : FactId} {entry : Entry} {store : Store}
    (retracted : e.store.retract? id = some (entry, store))
    : Supported inHand
        { e with store, agenda := e.agenda.push ⟨.retracted, entry.fact⟩ } := by
  obtain ⟨member, rfl, rfl⟩ := Store.retract?_eq_some retracted
  refine ⟨supported.coherent.retract retracted, supported.issued, supported.distinct, ?_, ?_⟩
  · intro other kept
    exact supported.justified other (List.mem_filter.mp kept).1
  · intro t tracked id consumed
    rcases supported.supported t tracked id consumed with stored | ⟨task, waiting, loss⟩ | held
    · obtain ⟨other, otherMember, same⟩ := Store.contains_iff.mp stored
      by_cases gone : other.id = entry.id
      · exact .inr (.inl ⟨⟨.retracted, entry.fact⟩, by simp [Agenda.push], rfl,
          gone.symm.trans same⟩)
      · exact .inl (Store.contains_iff.mpr
          ⟨other, List.mem_filter.mpr ⟨otherMember, by simpa using gone⟩, same⟩)
    · exact .inr (.inl ⟨task, List.mem_append_left _ waiting, loss⟩)
    · exact .inr (.inr held)

/-- Edits keep facts supported while the activation in whose name they are made is tracked; by
induction on the edits.
-/
theorem edits {author : Option ActivationId} (edits : Edits author e out e')
    (supported : Supported inHand e)
    (running : ∀ id, author = some id → id ∈ e.tracked.map (·.id))
    : Supported inHand e' := by
  have both := edits.invariant
    (P := fun e => Supported inHand e ∧ ∀ id, author = some id → id ∈ e.tracked.map (·.id)) ?_
    ⟨supported, running⟩
  · exact both.1
  · intro e out e' edit holds
    obtain ⟨supported, running⟩ := holds
    cases edit with
    | report => exact ⟨supported, running⟩
    | note | registry | define | undefine =>
      exact ⟨⟨supported.coherent, supported.issued, supported.distinct, supported.justified,
        supported.supported⟩, running⟩
    | assert asserted justified =>
      refine ⟨supported.assert running asserted justified, ?_⟩
      simpa using running
    | retract retracted => exact ⟨supported.retract retracted, running⟩

/-- An activation whose facts are stored may be tracked. -/
theorem track (supported : Supported inHand e) {a : Activation ν} (stored : e.Stores a.consumed)
    : Supported inHand ((track a).run e).engine := by
  refine ⟨supported.coherent, ?_, ?_, ?_, ?_⟩
  · intro t member
    rcases List.mem_append.mp member with old | last
    · exact Nat.lt_succ_of_lt (supported.issued t old)
    · exact List.mem_singleton.mp last ▸ Nat.lt_succ_self _
  · let new : Tracked := ⟨⟨e.nextActivation⟩, a.rule.id, FactIds.ofList a.consumed, []⟩
    change ((e.tracked ++ [new]).map (·.id)).Nodup
    rw [List.map_append]
    refine List.nodup_append.mpr ⟨supported.distinct, by simp, ?_⟩
    intro id old id' new same
    obtain ⟨t, member, rfl⟩ := List.mem_map.mp old
    have number := congrArg ActivationId.number (same.trans (List.mem_singleton.mp new))
    exact Nat.ne_of_lt (supported.issued t member) number
  · intro entry member id logical
    obtain ⟨t, tracked, rest⟩ := supported.justified entry member id logical
    exact ⟨t, List.mem_append_left _ tracked, rest⟩
  · intro t member id consumed
    rcases List.mem_append.mp member with old | last
    · exact supported.supported t old id consumed
    · obtain rfl := List.mem_singleton.mp last
      obtain ⟨kind, f, filed, same⟩ := stored id (FactIds.mem_ofList.mp consumed)
      obtain ⟨entry, entryMember, rfl⟩ := supported.coherent.mem_of_mem_factsOfKind filed
      exact .inl (Store.contains_iff.mpr ⟨entry, entryMember, same⟩)

/-- An activation that produced nothing justifies nothing, so it need not be tracked. -/
theorem untrackIfIdle (supported : Supported inHand e) (activation : ActivationId)
    : Supported inHand ((untrackIfIdle activation).run e).engine := by
  refine ⟨supported.coherent, ?_, ?_, ?_, ?_⟩
  · intro t member
    exact supported.issued t (List.mem_filter.mp member).1
  · exact supported.distinct.sublist (List.filter_sublist.map _)
  · intro entry member id logical
    obtain ⟨t, tracked, same, produced⟩ := supported.justified entry member id logical
    have busy : t.produced.isEmpty = false := by
      cases ids : t.produced with
      | nil => simp [ids] at produced
      | cons => rfl
    exact ⟨t, List.mem_filter.mpr ⟨tracked, by simp [busy]⟩, same, produced⟩
  · intro t member
    exact supported.supported t (List.mem_filter.mp member).1

/-- Firing keeps facts supported, whatever the body of the rule does. -/
theorem fire (supported : Supported inHand e) {a : Activation ν} (stored : e.Stores a.consumed)
    : Supported inHand ((fire a).run e).engine := by
  obtain ⟨e', out, edits, engine, -⟩ := fire_edits a e
  rw [engine]
  refine (Supported.edits edits (supported.track stored) ?_).untrackIfIdle _
  rintro id same
  obtain rfl := Option.some.inj same
  exact List.mem_map.mpr ⟨_, List.mem_append_right _ (List.mem_singleton.mpr rfl), rfl⟩

end Supported

-- --------------------------------------------------------------------------------------
-- Lost support
-- --------------------------------------------------------------------------------------

/-- Whether a fact is justified by an activation that consumed a fact. -/
def fallsWith (e : Engine ν) (gone : FactId) (entry : Entry) : Bool :=
  e.tracked.any fun t => t.consumed.contains gone && entry.isJustifiedBy t.id

/-- When a fact is gone, the activations that consumed it go, and with them exactly the facts that
they justify.
-/
theorem maintainSupport_withdrawal {inHand : FactId → Prop} {e : Engine ν}
    (supported : Supported inHand e) (gone : FactId)
    : ∃ removed, Withdrawal (!·.consumed.contains gone) (e.fallsWith gone) e
        ((maintainSupport gone).run e) removed := by
  obtain ⟨removed, withdrawal⟩ := takeBackAll_withdrawal supported.coherent gone
    (e.tracked.filter (·.consumed.contains gone))
  refine ⟨removed, withdrawal.congr ?_ ?_⟩
  · intro t member
    congr 1
    rw [Bool.eq_iff_iff, List.any_eq_true]
    constructor
    · rintro ⟨lost, lostMember, same⟩
      obtain ⟨tracked, consumed⟩ := List.mem_filter.mp lostMember
      rw [eq_of_tracked_id supported.distinct member tracked (by simpa using same)]
      exact consumed
    · intro consumed
      exact ⟨t, List.mem_filter.mpr ⟨member, consumed⟩, by simp⟩
  · intro entry stored
    rw [Bool.eq_iff_iff]
    simp only [fallsWith, List.any_eq_true, List.mem_filter, Bool.and_eq_true]
    constructor
    · rintro ⟨t, ⟨tracked, consumed⟩, -, justified⟩
      exact ⟨t, tracked, consumed, justified⟩
    · rintro ⟨t, tracked, consumed, justified⟩
      obtain ⟨t', tracked', same, produced⟩ := supported.justified entry stored t.id
        (by simpa [Entry.isJustifiedBy] using justified)
      obtain rfl := eq_of_tracked_id supported.distinct tracked' tracked same
      exact ⟨t', ⟨tracked, consumed⟩, by simpa using produced, justified⟩

/-- Once the support of a fact that is gone is withdrawn, it is no longer in hand. -/
theorem Supported.maintainSupport {inHand : FactId → Prop} {e : Engine ν} {gone : FactId}
    (supported : Supported (fun id => inHand id ∨ id = gone) e)
    : Supported inHand ((maintainSupport gone).run e).engine := by
  obtain ⟨removed, withdrawal⟩ := maintainSupport_withdrawal supported gone
  refine ⟨withdrawal.coherent, ?_, ?_, ?_, ?_⟩
  · intro t member
    rw [withdrawal.tracked] at member
    rw [withdrawal.others.2.2.2]
    exact supported.issued t (List.mem_filter.mp member).1
  · rw [withdrawal.tracked]
    exact supported.distinct.sublist (List.filter_sublist.map _)
  · intro entry member id logical
    rw [withdrawal.entries] at member
    obtain ⟨stored, stays⟩ := List.mem_filter.mp member
    obtain ⟨t, tracked, same, produced⟩ := supported.justified entry stored id logical
    refine ⟨t, ?_, same, produced⟩
    rw [withdrawal.tracked]
    refine List.mem_filter.mpr ⟨tracked, ?_⟩
    have apart : ¬(e.fallsWith gone entry = true) := by simpa using stays
    simp only [fallsWith, List.any_eq_true, Bool.and_eq_true, not_exists, not_and] at apart
    have justified : entry.isJustifiedBy t.id := by simp [Entry.isJustifiedBy, logical, same]
    simpa using fun consumed => apart t tracked (by simpa using consumed) justified
  · intro t member id consumed
    rw [withdrawal.tracked] at member
    obtain ⟨tracked, unaffected⟩ := List.mem_filter.mp member
    rcases supported.supported t tracked id consumed
      with stored | ⟨task, waiting, loss⟩ | held | rfl
    · obtain ⟨entry, entryMember, same⟩ := Store.contains_iff.mp stored
      cases falls : e.fallsWith gone entry with
      | false =>
        refine .inl (Store.contains_iff.mpr ⟨entry, ?_, same⟩)
        rw [withdrawal.entries]
        exact List.mem_filter.mpr ⟨entryMember, by simp [falls]⟩
      | true =>
        refine .inr (.inl ⟨entry.loss, ?_, rfl, same⟩)
        rw [withdrawal.agenda]
        have taken := (withdrawal.mem_removed entry).mpr ⟨entryMember, falls⟩
        exact List.mem_append_right _ (List.mem_map_of_mem taken)
    · refine .inr (.inl ⟨task, ?_, loss⟩)
      rw [withdrawal.agenda]
      exact List.mem_append_left _ waiting
    · exact .inr (.inr held)
    · simp [consumed] at unaffected

-- --------------------------------------------------------------------------------------
-- Between two tasks
-- --------------------------------------------------------------------------------------

/-- No retraction is in hand between two tasks. -/
abbrev Settled (e : Engine ν) : Prop := Supported (fun _ => False) e

/-- Taking a task off the agenda takes its fact in hand, if its retraction was waiting. -/
theorem Settled.taken {e : Engine ν} (settled : e.Settled) {t : Task} {agenda : Agenda}
    (taken : e.agenda.next? = some (t, agenda))
    : Supported (fun id => False ∨ t.change = .retracted ∧ id = t.fact.id) { e with agenda } := by
  refine ⟨settled.coherent, settled.issued, settled.distinct, settled.justified, ?_⟩
  intro tracked member id consumed
  rcases settled.supported tracked member id consumed with
    stored | ⟨task, waiting, loss, same⟩ | held
  · exact .inl stored
  · rw [Agenda.tasks_of_next? taken] at waiting
    rcases List.mem_cons.mp waiting with rfl | later
    · exact .inr (.inr (.inr ⟨loss, same.symm⟩))
    · exact .inr (.inl ⟨task, later, loss, same⟩)
  · exact held.elim

/-- Dealing with a task settles the engine again, also if the task is put back. -/
theorem Settled.process {e : Engine ν} (settled : e.Settled) {t : Task} {agenda : Agenda}
    (taken : e.agenda.next? = some (t, agenda)) (mayFire : Bool)
    : ((Engine.process t mayFire).run { e with agenda }).engine.Settled := by
  have begun := settled.taken taken
  cases change : t.change with
  | retracted =>
    have kept : Supported (fun id => False ∨ id = t.fact.id) { e with agenda } := by
      simpa [change] using begun
    simpa [Engine.process, change] using kept.maintainSupport
  | asserted =>
    have kept : Supported (fun _ => False) { e with agenda } := by simpa [change] using begun
    have dealt := process_dealt change mayFire { e with agenda }
    generalize (Engine.process t mayFire).run { e with agenda } = ran at dealt ⊢
    cases dealt with
    | passedOver => exact kept
    | fired allowed silent stored => exact kept.fire stored
    | putBack =>
      refine ⟨kept.coherent, kept.issued, kept.distinct, kept.justified, ?_⟩
      intro tracked member id consumed
      rcases kept.supported tracked member id consumed with stored | ⟨task, waiting, loss⟩ | held
      · exact .inl stored
      · exact .inr (.inl ⟨task, List.mem_cons_of_mem _ waiting, loss⟩)
      · exact held.elim

/-- An engine is settled at every point of its history, by induction on the history. -/
theorem settled_of_history {e : Engine ν} {out : List (Output ν)} {done : List Task}
    (history : History e out done)
    : e.Settled := by
  have blank (e : Engine ν) (store : e.store = {}) (tracked : e.tracked = []) : e.Settled := by
    refine ⟨?_, ?_, ?_, ?_, ?_⟩ <;> simp [store, tracked, Store.Coherent.empty]
  induction history with
  | created config => exact blank _ rfl rfl
  | reset => exact blank _ rfl rfl
  | operated earlier op ih => exact ih.edits (op.perform_editsBy _) nofun
  | @processed _ _ _ _ _ _ _ mayFire _ _ taken dealt ih =>
    have settled := ih.process taken mayFire
    rwa [dealt] at settled
  | @halted _ _ _ _ _ _ _ mayFire _ _ taken dealt ih =>
    have settled := ih.process taken mayFire
    rwa [dealt] at settled

-- --------------------------------------------------------------------------------------
-- Truth maintenance
-- --------------------------------------------------------------------------------------

/-- In a settled engine a justification is the tracked activation that a logical fact names. -/
theorem Settled.justification?_eq_some_iff {e : Engine ν} (settled : e.Settled) {id : FactId}
    {t : Tracked}
    : e.justification? id = some t
      ↔ t ∈ e.tracked
        ∧ ∃ entry ∈ e.store.entries, entry.id = id ∧ entry.origin = .logical t.id := by
  constructor
  · intro found
    obtain ⟨entry, stored, inner⟩ := Option.bind_eq_some_iff.mp found
    obtain ⟨activation, origin, tracked⟩ := Option.bind_eq_some_iff.mp inner
    obtain ⟨member, same⟩ := settled.coherent.entry?_eq_some_iff.mp stored
    have id : t.id = activation := by simpa using List.find?_some tracked
    refine ⟨List.mem_of_find?_eq_some tracked, entry, member, same, ?_⟩
    cases logical : entry.origin with
    | stated => simp [logical, Origin.activation?] at origin
    | logical other =>
      rw [logical] at origin
      rw [id, Option.some.inj origin]
  · rintro ⟨tracked, entry, member, rfl, logical⟩
    have stored := settled.coherent.entry?_eq_some_iff.mpr ⟨member, rfl⟩
    have found : (e.tracked.find? (·.id == t.id)).isSome :=
      List.find?_isSome.mpr ⟨t, tracked, by simp⟩
    obtain ⟨other, here⟩ := Option.isSome_iff_exists.mp found
    have same := eq_of_tracked_id settled.distinct (List.mem_of_find?_eq_some here) tracked
      (by simpa using List.find?_some here)
    simp [justification?, stored, logical, Origin.activation?, here, same]

/-- What an engine keeps true of its logical facts. -/
structure TruthMaintained (e : Engine ν) : Prop where
  /-- The activation that a logical fact names is tracked, and has produced the fact. -/
  produced : ∀ entry ∈ e.store.entries, ∀ id, entry.origin = .logical id →
    ∃ t ∈ e.tracked, t.id = id ∧ entry.id ∈ t.produced
  /-- The stored logical facts are those that have a justification. -/
  justified : ∀ id, (e.justification? id).isSome
    ↔ ∃ entry ∈ e.store.entries, entry.id = id ∧ entry.origin.isLogical
  /-- What a tracked activation consumed is stored unless its retraction waits. -/
  consumed : ∀ t ∈ e.tracked, ∀ id ∈ t.consumed, e.store.contains id ∨ e.Awaits id
  /-- No logical fact outlives its support. -/
  grounded : e.agenda.isEmpty → ∀ entry ∈ e.store.entries, ∀ id, entry.origin = .logical id →
    ∃ t, e.justification? entry.id = some t ∧ t.id = id ∧ ∀ id ∈ t.consumed, e.store.contains id

/-- Truth is maintained at every point of a history, whatever operations and rule bodies do. -/
theorem truthMaintained_of_history {e : Engine ν} {out : List (Output ν)} {done : List Task}
    (history : History e out done)
    : e.TruthMaintained := by
  have settled := settled_of_history history
  have consumed : ∀ t ∈ e.tracked, ∀ id ∈ t.consumed, e.store.contains id ∨ e.Awaits id := by
    intro t tracked id consumed
    rcases settled.supported t tracked id consumed with stored | waiting | held
    · exact .inl stored
    · exact .inr waiting
    · exact held.elim
  refine ⟨settled.justified, ?_, consumed, ?_⟩
  · intro id
    rw [Option.isSome_iff_exists]
    constructor
    · rintro ⟨t, found⟩
      obtain ⟨-, entry, member, same, logical⟩ := settled.justification?_eq_some_iff.mp found
      exact ⟨entry, member, same, by rw [logical]; rfl⟩
    · rintro ⟨entry, member, same, isLogical⟩
      cases logical : entry.origin with
      | stated => simp [logical, Origin.isLogical] at isLogical
      | logical activation =>
        obtain ⟨t, tracked, rfl, -⟩ := settled.justified entry member activation logical
        exact ⟨t, settled.justification?_eq_some_iff.mpr ⟨tracked, entry, member, same, logical⟩⟩
  · intro idle entry member id logical
    obtain ⟨t, tracked, rfl, -⟩ := settled.justified entry member id logical
    refine ⟨t, settled.justification?_eq_some_iff.mpr ⟨tracked, entry, member, rfl, logical⟩, rfl,
      ?_⟩
    intro id needed
    rcases consumed t tracked id needed with stored | ⟨task, waiting, -⟩
    · exact stored
    · rw [List.isEmpty_iff.mp idle] at waiting
      cases waiting

/-- In the sample the call is justified while the sensor that it rests on is gone, because the
sensor's retraction still waits.
-/
theorem sample_truthMaintained
    : ∃ done, History Sample.cut.engine (Sample.linked.output ++ Sample.cut.output) done
      ∧ Sample.cut.engine.TruthMaintained
      ∧ (Sample.cut.engine.justification? ⟨3⟩).isSome
      ∧ Sample.cut.engine.store.contains ⟨1⟩ = false := by
  obtain ⟨done, history⟩ := Sample.history
  exact ⟨done, history, truthMaintained_of_history history, by decide +kernel, by decide +kernel⟩

end Engine

end RuleEngine
