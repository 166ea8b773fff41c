import RuleEngine.Proofs.Engine.Support

/-! Causes come first. Identities are issued in ascending order, and an activation consumes only
what is stored as it is fired, so everything that it consumed was issued before everything that it
justifies. What logical facts rest on therefore never leads back to them.
-/

namespace RuleEngine

-- --------------------------------------------------------------------------------------
-- Sets of identities
-- --------------------------------------------------------------------------------------

namespace FactIds

theorem ascending_insert {ids : FactIds} (ascending : ids.Pairwise (·.number < ·.number))
    (id : FactId)
    : (insert id ids).Pairwise (·.number < ·.number) := by
  induction ids with
  | nil => exact List.pairwise_singleton ..
  | cons first rest ih =>
    obtain ⟨above, later⟩ := List.pairwise_cons.mp ascending
    unfold insert
    split
    · rename_i below
      refine List.pairwise_cons.mpr ⟨fun other member => ?_, ascending⟩
      rcases List.mem_cons.mp member with rfl | more
      · exact below
      · exact Nat.lt_trans below (above other more)
    · rename_i notBelow
      split
      · exact ascending
      · rename_i differs
        have apart : first.number ≠ id.number := fun same => differs (congrArg FactId.mk same).symm
        refine List.pairwise_cons.mpr ⟨fun other member => ?_, ih later⟩
        rcases mem_insert.mp member with rfl | more
        · omega
        · exact above other more

/-- A set of identities ascends, whatever the order in which it was given. -/
theorem ascending_ofList (ids : List FactId) : (ofList ids).Pairwise (·.number < ·.number) := by
  suffices general : ∀ set : FactIds, set.Pairwise (·.number < ·.number) →
      (ids.foldl (fun set id => insert id set) set).Pairwise (·.number < ·.number) from
    general [] .nil
  induction ids with
  | nil => exact fun _ ascending => ascending
  | cons first rest ih => exact fun set ascending => ih _ (ascending_insert ascending first)

end FactIds

namespace Engine

open EngineM

variable {ν : Type}

-- --------------------------------------------------------------------------------------
-- Activations and their facts
-- --------------------------------------------------------------------------------------

/-- What an activation consumed is listed in ascending order, was issued before `next`, and came
before what it produced.
-/
structure CausesFirst (next : Nat) (t : Tracked) : Prop where
  ascending : t.consumed.Pairwise (·.number < ·.number)
  issued : ∀ cause ∈ t.consumed, cause.number < next
  before : ∀ cause ∈ t.consumed, ∀ id ∈ t.produced, cause.number < id.number

/-- Causes come first in every activation that is tracked. -/
def TracksCausesFirst (e : Engine ν) : Prop := ∀ t ∈ e.tracked, CausesFirst e.store.next t

/-- A noted fact is all that an activation may have produced besides. -/
theorem noteOrigin_produced {origin : Origin} {fact : FactId} {tracked : List Tracked} {t : Tracked}
    (member : t ∈ noteOrigin origin fact tracked)
    : ∃ old ∈ tracked, t.consumed = old.consumed
        ∧ ∀ id ∈ t.produced, id = fact ∨ id ∈ old.produced := by
  rw [noteOrigin_eq_map] at member
  obtain ⟨old, oldMember, rfl⟩ := List.mem_map.mp member
  refine ⟨old, oldMember, ?_⟩
  split
  · exact ⟨rfl, fun id produced => FactIds.mem_insert.mp produced⟩
  · exact ⟨rfl, fun id produced => .inr produced⟩

namespace TracksCausesFirst

variable {e e' : Engine ν} {out : List (Output ν)}

/-- A fact that is produced has a greater identity than all that were issued before. -/
theorem assert (causes : e.TracksCausesFirst) {r : Record} {origin : Origin} {entry : Entry}
    {store : Store} (asserted : e.store.assert r origin = .ok (entry, store))
    : ∀ t ∈ noteOrigin origin entry.id e.tracked, CausesFirst store.next t := by
  obtain ⟨fresh, -, rfl⟩ := Store.assert_eq_ok asserted
  intro t member
  obtain ⟨old, oldMember, consumed, produced⟩ := noteOrigin_produced member
  obtain ⟨ascending, issued, before⟩ := causes old oldMember
  rw [← consumed] at ascending issued before
  refine ⟨ascending, fun cause member => Nat.lt_succ_of_lt (issued cause member), ?_⟩
  intro cause causeMember id idMember
  rcases produced id idMember with rfl | earlier
  · rw [fresh]
    exact issued cause causeMember
  · exact before cause causeMember id earlier

/-- Edits keep causes first, by induction on the edits. -/
theorem edits {author : Option ActivationId} (edits : Edits author e out e')
    (causes : e.TracksCausesFirst)
    : e'.TracksCausesFirst := by
  refine edits.invariant ?_ causes
  intro e out e' edit causes
  cases edit with
  | report | note | registry | define | undefine => exact causes
  | assert asserted => exact causes.assert asserted
  | retract retracted =>
    obtain ⟨-, -, rfl⟩ := Store.retract?_eq_some retracted
    exact causes

/-- Causes come first in some of the activations if they do in all. -/
theorem filter (causes : e.TracksCausesFirst) (stays : Tracked → Bool)
    : ∀ t ∈ e.tracked.filter stays, CausesFirst e.store.next t :=
  fun t member => causes t (List.mem_filter.mp member).1

/-- An activation that is fired consumes stored facts, and has produced nothing as it begins. -/
theorem fire (causes : e.TracksCausesFirst) (coherent : e.store.Coherent) {a : Activation ν}
    (stored : e.Stores a.consumed)
    : ((Engine.fire a).run e).engine.TracksCausesFirst := by
  have begun : ((Engine.track a).run e).engine.TracksCausesFirst := by
    intro t member
    rcases List.mem_append.mp member with old | last
    · exact causes t old
    · obtain rfl := List.mem_singleton.mp last
      refine ⟨FactIds.ascending_ofList a.consumed, fun cause consumed => ?_, fun _ _ => nofun⟩
      obtain ⟨kind, f, filed, rfl⟩ := stored cause (FactIds.mem_ofList.mp consumed)
      obtain ⟨entry, entryMember, rfl⟩ := coherent.mem_of_mem_factsOfKind filed
      exact coherent.issued entry entryMember
  obtain ⟨e', out, edits, engine, -⟩ := fire_edits a e
  rw [engine]
  exact (TracksCausesFirst.edits edits begun).filter _

/-- Dealing with a task keeps causes first. -/
theorem process {t : Task} {agenda : Agenda} (causes : e.TracksCausesFirst) (settled : e.Settled)
    (taken : e.agenda.next? = some (t, agenda)) (mayFire : Bool)
    : ((Engine.process t mayFire).run { e with agenda }).engine.TracksCausesFirst := by
  cases change : t.change with
  | retracted =>
    obtain ⟨removed, withdrawal⟩ := maintainSupport_withdrawal (settled.taken taken) t.fact.id
    rw [process_retracted change]
    intro tracked member
    rw [withdrawal.tracked] at member
    rw [withdrawal.next]
    exact causes.filter _ tracked member
  | asserted =>
    have dealt := process_dealt change mayFire { e with agenda }
    generalize (Engine.process t mayFire).run { e with agenda } = ran at dealt ⊢
    cases dealt with
    | passedOver | putBack => exact causes
    | fired _ _ stored =>
      exact TracksCausesFirst.fire (e := { e with agenda }) causes settled.coherent stored

end TracksCausesFirst

/-- Causes come first at every point of a history, by induction on the history. -/
theorem tracksCausesFirst_of_history {e : Engine ν} {out : List (Output ν)} {done : List Task}
    (history : History e out done)
    : e.TracksCausesFirst := by
  induction history with
  | created | reset => exact nofun
  | operated earlier op ih => exact ih.edits (op.perform_editsBy _)
  | @processed _ _ _ _ _ _ _ mayFire _ earlier taken dealt ih =>
    have causes := ih.process (settled_of_history earlier) taken mayFire
    rwa [dealt] at causes
  | @halted _ _ _ _ _ _ _ mayFire _ earlier taken dealt ih =>
    have causes := ih.process (settled_of_history earlier) taken mayFire
    rwa [dealt] at causes

-- --------------------------------------------------------------------------------------
-- What logical facts rest on
-- --------------------------------------------------------------------------------------

/-- The activation that justifies a fact consumed another one. -/
def RestsDirectlyOn (e : Engine ν) (id cause : FactId) : Prop :=
  ∃ t, e.justification? id = some t ∧ cause ∈ t.consumed

/-- The activation that justifies a fact has produced it. -/
theorem Settled.produced_of_justification? {e : Engine ν} (settled : e.Settled) {id : FactId}
    {t : Tracked} (justified : e.justification? id = some t)
    : t ∈ e.tracked ∧ id ∈ t.produced := by
  obtain ⟨tracked, entry, stored, rfl, logical⟩ := settled.justification?_eq_some_iff.mp justified
  obtain ⟨t', tracked', same, produced⟩ := settled.justified entry stored t.id logical
  exact ⟨tracked, eq_of_tracked_id settled.distinct tracked' tracked same ▸ produced⟩

/-- A fact was issued later than what it rests on. -/
theorem RestsDirectlyOn.lt {e : Engine ν} (settled : e.Settled) (causes : e.TracksCausesFirst)
    {id cause : FactId} (rests : e.RestsDirectlyOn id cause)
    : cause.number < id.number := by
  obtain ⟨t, justified, consumed⟩ := rests
  obtain ⟨tracked, produced⟩ := Engine.Settled.produced_of_justification? settled justified
  exact (causes t tracked).before cause consumed id produced

/-- A fact was issued later than all that it rests on in the end, by induction on the way there. -/
theorem number_lt_of_restsOn {e : Engine ν} (settled : e.Settled) (causes : e.TracksCausesFirst)
    {id cause : FactId} (rests : Relation.TransGen e.RestsDirectlyOn id cause)
    : cause.number < id.number := by
  induction rests with
  | single last => exact last.lt settled causes
  | tail _ last ih => exact Nat.lt_trans (last.lt settled causes) ih

end Engine

end RuleEngine
