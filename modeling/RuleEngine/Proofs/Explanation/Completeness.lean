import Mathlib.Data.List.Basic
import RuleEngine.Explanation
import RuleEngine.Proofs.Engine.Precedence
import RuleEngine.Proofs.Engine.Replay

/-! Complete explanations. What a logical fact rests on was issued before it, so an explanation that
may be as deep as the identity of its fact is never cut short, and nothing in it depends on the
depth any more. Once the agenda is empty it leaves out nothing that an activation consumed.
-/

namespace RuleEngine

namespace Explanation

theorem anyTruncated_eq_any (xs : List Explanation) : anyTruncated xs = xs.any isTruncated := by
  induction xs with
  | nil => rfl
  | cons x rest ih => rw [anyTruncated, ih, List.any_cons]

theorem nodesAll_eq_flatMap (xs : List Explanation) : nodesAll xs = xs.flatMap nodes := by
  induction xs with
  | nil => rfl
  | cons x rest ih => rw [nodesAll, ih, List.flatMap_cons]

end Explanation

namespace Engine

variable {ν : Type}

/-- A tree explains a stored fact down to stated facts. Of what an activation consumed it explains
in turn, in the same order, what is still stored.
-/
inductive Explains (e : Engine ν) : Explanation → Prop where
  | stated {f : Fact} (stored : e.store.fact? f.id = some f)
    (unjustified : e.justification? f.id = none)
    : Explains e (.stated f)
  | justified {f : Fact} {t : Tracked} {supports : List Explanation}
    (stored : e.store.fact? f.id = some f) (justified : e.justification? f.id = some t)
    (each : supports.map (·.fact.id) = t.consumed.filter e.store.contains)
    (explained : ∀ x ∈ supports, Explains e x)
    : Explains e (.justified f t supports)

namespace Explains

variable {e : Engine ν} {x : Explanation}

/-- Nothing is cut short, by induction on the tree. -/
theorem isTruncated_eq_false (explains : e.Explains x) : x.isTruncated = false := by
  induction explains with
  | stated => rfl
  | justified _ _ _ _ ih =>
    rw [Explanation.isTruncated, Explanation.anyTruncated_eq_any, List.any_eq_false]
    exact fun x member => by simp [ih x member]

/-- The trees inside it explain their facts too, by induction on the tree. -/
theorem of_mem_nodes (explains : e.Explains x) {node : Explanation} (member : node ∈ x.nodes)
    : e.Explains node := by
  induction explains with
  | stated stored unjustified =>
    obtain rfl := List.mem_singleton.mp member
    exact .stated stored unjustified
  | justified stored justified each explained ih =>
    rcases List.mem_cons.mp member with rfl | inside
    · exact .justified stored justified each explained
    · rw [Explanation.nodesAll_eq_flatMap] at inside
      obtain ⟨x, support, within⟩ := List.mem_flatMap.mp inside
      exact ih x support within

/-- If all that is consumed is stored, a justified fact has one support for each fact that its
activation consumed.
-/
theorem supports_eq (explains : e.Explains x) {t : Tracked} (justified : x.justification? = some t)
    (stored : ∀ id ∈ t.consumed, e.store.contains id)
    : x.supports.map (·.fact.id) = t.consumed := by
  cases explains with
  | stated => cases justified
  | justified _ _ each _ =>
    obtain rfl := Option.some.inj justified
    exact each.trans (List.filter_eq_self.mpr stored)

/-- The justifications in it are tracked activations. -/
theorem tracked_of_justification? (explains : e.Explains x) (settled : e.Settled) {t : Tracked}
    (justified : x.justification? = some t)
    : t ∈ e.tracked := by
  cases explains with
  | stated => cases justified
  | justified _ found _ _ =>
    obtain rfl := Option.some.inj justified
    exact (settled.justification?_eq_some_iff.mp found).1

end Explains

-- --------------------------------------------------------------------------------------
-- Explanations by depth
-- --------------------------------------------------------------------------------------

section

variable {e : Engine ν}

/-- An explanation is about the fact that it was asked for. -/
theorem fact_of_explain? {depth : Nat} {id : FactId} {x : Explanation}
    (explained : e.explain? depth id = some x)
    : e.store.fact? id = some x.fact ∧ x.fact.id = id := by
  have stored : e.store.fact? id = some x.fact := by
    cases depth with
    | zero =>
      obtain ⟨f, stored, rfl⟩ := Option.map_eq_some_iff.mp explained
      cases e.justification? id <;> exact stored
    | succ depth =>
      obtain ⟨f, stored, rfl⟩ := Option.map_eq_some_iff.mp explained
      cases e.justification? id <;> exact stored
  exact ⟨stored, (Store.fact?_eq_some stored).2⟩

/-- A stored fact has an explanation at every depth, and no other fact has one. -/
theorem isSome_explain? (depth : Nat) (id : FactId)
    : (e.explain? depth id).isSome = e.store.contains id := by
  cases depth <;> simp [explain?, Store.fact?, Store.contains]

/-- The facts that are explained are those that are stored. -/
theorem map_explain? (depth : Nat) (ids : List FactId)
    : (ids.filterMap (e.explain? depth)).map (·.fact.id) = ids.filter e.store.contains := by
  rw [List.map_filterMap, ← List.filterMap_eq_filter]
  refine List.filterMap_congr fun id _ => ?_
  have stored := isSome_explain? (e := e) depth id
  cases explained : e.explain? depth id with
  | none =>
    rw [explained] at stored
    simp [Option.guard, ← stored]
  | some x =>
    rw [explained] at stored
    simp [Option.guard, ← stored, (fact_of_explain? explained).2]

variable (positive : ∀ id f, e.store.fact? id = some f → 0 < id.number)
  (descends : ∀ id cause, e.RestsDirectlyOn id cause → cause.number < id.number)

include positive descends

/-- Depths from the identity of a fact on make no difference, by induction on the identity. -/
theorem explain?_of_le {id : FactId} {depth depth' : Nat} (enough : id.number ≤ depth)
    (enough' : id.number ≤ depth')
    : e.explain? depth id = e.explain? depth' id := by
  induction number : id.number using Nat.strongRecOn generalizing id depth depth' with
  | ind n ih =>
    cases stored : e.store.fact? id with
    | none => cases depth <;> cases depth' <;> simp [explain?, stored]
    | some f =>
      have above := positive id f stored
      obtain ⟨depth, rfl⟩ := Nat.exists_eq_add_of_lt (Nat.lt_of_lt_of_le above enough)
      obtain ⟨depth', rfl⟩ := Nat.exists_eq_add_of_lt (Nat.lt_of_lt_of_le above enough')
      cases justified : e.justification? id with
      | none => simp [explain?, stored, justified]
      | some t =>
        have same : t.consumed.filterMap (e.explain? (0 + depth))
            = t.consumed.filterMap (e.explain? (0 + depth')) := by
          refine List.filterMap_congr fun cause consumed => ?_
          have below := descends id cause ⟨t, justified, consumed⟩
          exact ih cause.number (number ▸ below) (by omega) (by omega) rfl
        simp only [explain?, stored, justified, same]

/-- From the identity of its fact on an explanation is complete, by induction on the identity. -/
theorem explains_of_explain? {id : FactId} {depth : Nat} {x : Explanation}
    (enough : id.number ≤ depth) (explained : e.explain? depth id = some x)
    : e.Explains x := by
  induction number : id.number using Nat.strongRecOn generalizing id depth x with
  | ind n ih =>
    have above := positive id _ (fact_of_explain? explained).1
    obtain ⟨depth, rfl⟩ := Nat.exists_eq_add_of_lt (Nat.lt_of_lt_of_le above enough)
    obtain ⟨f, stored, rfl⟩ := Option.map_eq_some_iff.mp explained
    obtain rfl := (Store.fact?_eq_some stored).2
    cases justified : e.justification? f.id with
    | none => exact .stated stored justified
    | some t =>
      refine .justified stored justified (map_explain? _ _) fun x member => ?_
      obtain ⟨cause, consumed, found⟩ := List.mem_filterMap.mp member
      have below := descends f.id cause ⟨t, justified, consumed⟩
      exact ih cause.number (number ▸ below) (by omega) found rfl

end

-- --------------------------------------------------------------------------------------
-- Histories
-- --------------------------------------------------------------------------------------

/-- At every point of a history what an activation consumed was issued before what it produced, so
no fact rests on itself. The explanation of a stored fact is the same at every depth from its
identity on, and is not cut short. Once the agenda is empty, each justified fact in it has one
support for each fact that its activation consumed.
-/
theorem explanations_complete {e : Engine ν} {out : List (Output ν)} {done : List Task}
    (history : History e out done)
    : (∀ t ∈ e.tracked, ∀ cause ∈ t.consumed, ∀ id ∈ t.produced, cause.number < id.number)
      ∧ (∀ id cause, Relation.TransGen e.RestsDirectlyOn id cause → cause.number < id.number)
      ∧ ∀ id, e.store.contains id →
          ∃ x, (∀ depth, id.number ≤ depth → e.explain? depth id = some x)
            ∧ x.fact.id = id ∧ x.isTruncated = false ∧ e.Explains x
            ∧ (e.agenda.isEmpty → ∀ node ∈ x.nodes, ∀ t, node.justification? = some t →
                node.supports.map (·.fact.id) = t.consumed ∧ t.consumed.Nodup) := by
  have settled := settled_of_history history
  have causes := tracksCausesFirst_of_history history
  have descends (id cause : FactId) (rests : e.RestsDirectlyOn id cause)
      : cause.number < id.number :=
    rests.lt settled causes
  have positive (id : FactId) (f : Fact) (stored : e.store.fact? id = some f) : 0 < id.number := by
    obtain ⟨entry, found, rfl⟩ := Option.map_eq_some_iff.mp stored
    obtain ⟨member, rfl⟩ := settled.coherent.entry?_eq_some_iff.mp found
    have logged := history.accounted.logged
    have came : (⟨.asserted, entry.fact⟩ : Task) ∈ changesOf entry.id (scheduled out) := by
      rw [logged.stored entry member]
      exact List.mem_singleton.mpr rfl
    exact (logged.issued _ (List.mem_filter.mp came).1).1
  refine ⟨fun t tracked => (causes t tracked).before,
    fun id cause => number_lt_of_restsOn settled causes, fun id stored => ?_⟩
  obtain ⟨x, explained⟩ := Option.isSome_iff_exists.mp
    ((isSome_explain? id.number id).trans stored)
  have explains := explains_of_explain? positive descends (Nat.le_refl _) explained
  refine ⟨x, fun depth enough => ?_, (fact_of_explain? explained).2, explains.isTruncated_eq_false,
    explains, fun idle node member t justified => ?_⟩
  · rw [← explained]
    exact explain?_of_le positive descends enough (Nat.le_refl _)
  · have explainsNode := explains.of_mem_nodes member
    have tracked := explainsNode.tracked_of_justification? settled justified
    refine ⟨explainsNode.supports_eq justified fun cause consumed => ?_, ?_⟩
    · rcases settled.supported t tracked cause consumed with stored | ⟨task, waiting, -⟩ | held
      · exact stored
      · rw [List.isEmpty_iff.mp idle] at waiting
        cases waiting
      · exact held.elim
    · exact (causes t tracked).ascending.imp fun below same => by simp [same] at below

/-- In the sample the call rests on the alarm and the alarm on the sensor, which is stated. -/
theorem sample_explanations_complete
    : (∃ done, History Sample.linked.engine Sample.linked.output done)
      ∧ Sample.linked.engine.store.contains ⟨3⟩ ∧ Sample.linked.engine.agenda.isEmpty
      ∧ ∃ x, (∀ depth, 3 ≤ depth → Sample.linked.engine.explain? depth ⟨3⟩ = some x)
        ∧ x.isTruncated = false ∧ x.rules = ["call", "alarm"] ∧ x.roots = [⟨1⟩]
        ∧ ∀ node ∈ x.nodes, ∀ t, node.justification? = some t →
            node.supports.map (·.fact.id) = t.consumed := by
  obtain ⟨done, history⟩ := Sample.linked_history
  have stored : Sample.linked.engine.store.contains ⟨3⟩ := by decide +kernel
  have idle : Sample.linked.engine.agenda.isEmpty := by decide +kernel
  obtain ⟨-, -, complete⟩ := explanations_complete history
  obtain ⟨x, explained, -, whole, -, each⟩ := complete ⟨3⟩ stored
  have shown : (Sample.linked.engine.explain? 3 ⟨3⟩).map (fun x => (x.rules, x.roots))
      = some (["call", "alarm"], [⟨1⟩]) := by
    decide +kernel
  rw [explained 3 (Nat.le_refl 3)] at shown
  obtain ⟨rules, roots⟩ := Prod.mk.inj (Option.some.inj shown)
  exact ⟨⟨done, history⟩, stored, idle, x, explained, whole, rules, roots,
    fun node member t justified => (each idle node member t justified).1⟩

end Engine

end RuleEngine
