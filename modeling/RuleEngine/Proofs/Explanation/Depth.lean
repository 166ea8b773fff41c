import RuleEngine.Proofs.Explanation.Completeness
import RuleEngine.Proofs.Value.Distinct

/-! Explanations of one fact at different depths. The shallower one is the deeper one with what lies
below its depth cut off, so it names no fact and no rule that the deeper one does not name; and once
nothing is cut off, more depth adds nothing.
-/

namespace RuleEngine

namespace Explanation

/-- An explanation down to a level, its own fact being at level 0: what is justified at that level
is not followed further, and all else stays.
-/
def prune : Nat → Explanation → Explanation
  | 0, justified fact t _ => truncated fact t
  | level + 1, justified fact t supports => justified fact t (supports.map (prune level))
  | _, x => x

@[simp]
theorem prune_stated (level : Nat) (fact : Fact) : prune level (stated fact) = stated fact := by
  cases level <;> rfl

@[simp]
theorem prune_truncated (level : Nat) (fact : Fact) (t : Tracked)
    : prune level (truncated fact t) = truncated fact t := by
  cases level <;> rfl

-- --------------------------------------------------------------------------------------
-- Depth
-- --------------------------------------------------------------------------------------

/-- By induction on the explanations. -/
theorem depthAll_le_iff {xs : List Explanation} {n : Nat}
    : depthAll xs ≤ n ↔ ∀ x ∈ xs, x.depth ≤ n := by
  induction xs with
  | nil => simp [depthAll]
  | cons x rest ih => rw [depthAll, Nat.max_le, ih, List.forall_mem_cons]

theorem lt_depthAll_iff {xs : List Explanation} {n : Nat}
    : n < depthAll xs ↔ ∃ x ∈ xs, n < x.depth := by
  rw [← Nat.not_le, depthAll_le_iff]
  simp

/-- What is pruned without being cut short was not changed, by induction on the level. -/
theorem prune_eq_self {level : Nat} {x : Explanation} (whole : (prune level x).isTruncated = false)
    : prune level x = x := by
  induction level generalizing x with
  | zero =>
    cases x with
    | stated | truncated => rfl
    | justified => cases whole
  | succ level ih =>
    cases x with
    | stated | truncated => rfl
    | justified fact t supports =>
      rw [prune, isTruncated, anyTruncated_eq_any, List.any_map, List.any_eq_false] at whole
      have same : supports.map (prune level) = supports.map id :=
        List.map_congr_left fun x member => ih (by simpa using whole x member)
      rw [prune, same, List.map_id]

-- --------------------------------------------------------------------------------------
-- What is named
-- --------------------------------------------------------------------------------------

theorem mem_foldl_first {α : Type} [BEq α] [LawfulBEq α] {a : α} (items : List α)
    : a ∈ items.foldl (fun seen item => if seen.contains item then seen else seen ++ [item]) []
      ↔ a ∈ items := by
  have trans (x y z : α) (same : y == x) (same' : z == y) : z == x :=
    PartialEquivBEq.trans same' same
  have kept := any_keepFirst (fun x y => y == x) trans items a
  simp only [keepFirst, ← List.contains_eq_any_beq] at kept
  rw [← List.contains_iff_mem, kept, List.contains_iff_mem]

theorem mem_rules_iff {x : Explanation} {rule : String}
    : rule ∈ x.rules ↔ ∃ node ∈ x.nodes, ∃ t, node.justification? = some t ∧ t.rule = rule := by
  rw [rules, mem_foldl_first]
  simp

theorem isStated_iff {x : Explanation} : x.isStated ↔ x.justification? = none := by
  cases x <;> simp [isStated, justification?]

theorem mem_roots_iff {x : Explanation} {id : FactId}
    : id ∈ x.roots ↔ ∃ node ∈ x.nodes, node.justification? = none ∧ node.fact.id = id := by
  rw [roots, mem_foldl_first]
  simp [isStated_iff, and_assoc]

/-- Pruning adds no facts and no justifications, by induction on the level. -/
theorem exists_mem_nodes_of_prune {level : Nat} {x node : Explanation}
    (member : node ∈ (prune level x).nodes)
    : ∃ node' ∈ x.nodes,
        node'.fact = node.fact ∧ node'.justification? = node.justification? := by
  induction level generalizing x with
  | zero =>
    cases x with
    | stated | truncated => exact ⟨node, member, rfl, rfl⟩
    | justified fact t supports =>
      obtain rfl := List.mem_singleton.mp member
      exact ⟨_, List.mem_cons_self, rfl, rfl⟩
  | succ level ih =>
    cases x with
    | stated | truncated => exact ⟨node, member, rfl, rfl⟩
    | justified fact t supports =>
      rw [prune, nodes, nodesAll_eq_flatMap, List.flatMap_map] at member
      rcases List.mem_cons.mp member with rfl | inside
      · exact ⟨_, List.mem_cons_self, rfl, rfl⟩
      · obtain ⟨support, among, within⟩ := List.mem_flatMap.mp inside
        obtain ⟨node', member', same⟩ := ih within
        refine ⟨node', List.mem_cons_of_mem _ ?_, same⟩
        rw [nodesAll_eq_flatMap]
        exact List.mem_flatMap.mpr ⟨support, among, member'⟩

theorem rules_prune_subset (level : Nat) (x : Explanation) : (prune level x).rules ⊆ x.rules := by
  intro rule named
  obtain ⟨node, member, t, justified, same⟩ := mem_rules_iff.mp named
  obtain ⟨node', member', -, justified'⟩ := exists_mem_nodes_of_prune member
  exact mem_rules_iff.mpr ⟨node', member', t, justified'.trans justified, same⟩

theorem roots_prune_subset (level : Nat) (x : Explanation) : (prune level x).roots ⊆ x.roots := by
  intro id named
  obtain ⟨node, member, unjustified, same⟩ := mem_roots_iff.mp named
  obtain ⟨node', member', fact, justified'⟩ := exists_mem_nodes_of_prune member
  exact mem_roots_iff.mpr ⟨node', member', justified'.trans unjustified, fact ▸ same⟩

end Explanation

namespace Engine

open Explanation

variable {ν : Type} {e : Engine ν}

/-- A shallower explanation is a deeper one down to its own depth, by induction on the depth. -/
theorem explain?_eq_map_prune {depth depth' : Nat} (deeper : depth ≤ depth') (id : FactId)
    : e.explain? depth id = (e.explain? depth' id).map (prune depth) := by
  induction depth generalizing depth' id with
  | zero =>
    cases depth' <;> cases justified : e.justification? id <;>
      simp [explain?, justified, Function.comp_def, prune]
  | succ depth ih =>
    obtain ⟨depth', rfl⟩ := Nat.exists_eq_add_of_lt deeper
    cases justified : e.justification? id with
    | none => simp [explain?, justified, Function.comp_def]
    | some t =>
      have supports : (t.consumed.filterMap (e.explain? (depth + depth'))).map (prune depth)
          = t.consumed.filterMap (e.explain? depth) := by
        rw [List.map_filterMap]
        exact List.filterMap_congr fun cause _ => (ih (Nat.le_add_right _ _) cause).symm
      simp [explain?, justified, Function.comp_def, prune, supports]

/-- An explanation is as deep as it may be or less, unless it is cut short just below; by induction
on how deep it may be.
-/
theorem depth_of_explain? {depth : Nat} {id : FactId} {x : Explanation}
    (explained : e.explain? depth id = some x)
    : x.depth ≤ depth + 1 ∧ (x.isTruncated ↔ depth < x.depth) := by
  induction depth generalizing id x with
  | zero =>
    obtain ⟨f, -, rfl⟩ := Option.map_eq_some_iff.mp explained
    cases e.justification? id <;> simp [Explanation.depth, isTruncated]
  | succ depth ih =>
    obtain ⟨f, -, rfl⟩ := Option.map_eq_some_iff.mp explained
    cases e.justification? id with
    | none => simp [Explanation.depth, isTruncated]
    | some t =>
      have each (x : Explanation) (member : x ∈ t.consumed.filterMap (e.explain? depth))
          : x.depth ≤ depth + 1 ∧ (x.isTruncated ↔ depth < x.depth) := by
        obtain ⟨cause, -, explained⟩ := List.mem_filterMap.mp member
        exact ih explained
      have below : depthAll (t.consumed.filterMap (e.explain? depth)) ≤ depth + 1 :=
        depthAll_le_iff.mpr fun x member => (each x member).1
      have cut : anyTruncated (t.consumed.filterMap (e.explain? depth))
          ↔ depth < depthAll (t.consumed.filterMap (e.explain? depth)) := by
        rw [anyTruncated_eq_any, List.any_eq_true, lt_depthAll_iff]
        exact exists_congr fun x => and_congr_right fun member => (each x member).2
      simp only [Explanation.depth, isTruncated, cut]
      omega

/-- What is not cut short stays the same at every larger depth. -/
theorem explain?_of_not_isTruncated {depth depth' : Nat} (deeper : depth ≤ depth') {id : FactId}
    {x : Explanation} (explained : e.explain? depth id = some x) (whole : x.isTruncated = false)
    : e.explain? depth' id = some x := by
  rw [explain?_eq_map_prune deeper] at explained
  obtain ⟨x, explained', rfl⟩ := Option.map_eq_some_iff.mp explained
  rw [explained', prune_eq_self whole]

/-- Explanations of one fact nest. A stored fact has one at every depth: the one at any larger depth
with what is justified at the level of the depth left as it stands. It names only stated facts and
rules that the deeper one names too. If it is cut short it is one deeper than its depth allows, and
otherwise it is no deeper than that and the same at all larger depths.
-/
theorem explanations_nest (e : Engine ν) (id : FactId) (depth : Nat)
    : (e.explain? depth id).isSome = e.store.contains id
      ∧ (∀ depth', depth ≤ depth' →
          e.explain? depth id = (e.explain? depth' id).map (prune depth))
      ∧ ∀ x, e.explain? depth id = some x →
          (x.isTruncated ↔ x.depth = depth + 1)
          ∧ (x.isTruncated = false → x.depth ≤ depth
              ∧ ∀ depth', depth ≤ depth' → e.explain? depth' id = some x)
          ∧ ∀ depth' y, depth ≤ depth' → e.explain? depth' id = some y →
              x.roots ⊆ y.roots ∧ x.rules ⊆ y.rules := by
  refine ⟨isSome_explain? depth id, fun depth' deeper => explain?_eq_map_prune deeper id,
    fun x explained => ?_⟩
  obtain ⟨below, cut⟩ := depth_of_explain? explained
  refine ⟨cut.trans (by omega), fun whole => ⟨?_, fun depth' deeper => ?_⟩,
    fun depth' y deeper deep => ?_⟩
  · rw [whole] at cut
    exact Nat.le_of_not_lt fun deep => Bool.noConfusion (cut.mpr deep)
  · exact explain?_of_not_isTruncated deeper explained whole
  · rw [explain?_eq_map_prune deeper, deep] at explained
    obtain rfl := Option.some.inj explained
    exact ⟨roots_prune_subset depth y, rules_prune_subset depth y⟩

/-- In the sample the explanation of the call is cut short at depth 1, where the alarm stands as a
fact that is not followed further, and is the whole of it from depth 2 on.
-/
theorem sample_explanations_nest
    : ∃ x y, Sample.linked.engine.explain? 1 ⟨3⟩ = some x
        ∧ x = prune 1 y ∧ x.isTruncated ∧ x.depth = 2
        ∧ x.rules ⊆ y.rules ∧ x.roots = [] ∧ y.roots = [⟨1⟩]
        ∧ y.depth ≤ 2 ∧ ∀ depth, 2 ≤ depth → Sample.linked.engine.explain? depth ⟨3⟩ = some y := by
  have shown : (Sample.linked.engine.explain? 1 ⟨3⟩).map (fun x => (x.isTruncated, x.roots))
      = some (true, []) := by
    decide +kernel
  have shown' : (Sample.linked.engine.explain? 2 ⟨3⟩).map (fun y => (y.isTruncated, y.roots))
      = some (false, [⟨1⟩]) := by
    decide +kernel
  obtain ⟨x, explained, cut⟩ := Option.map_eq_some_iff.mp shown
  obtain ⟨y, explained', whole⟩ := Option.map_eq_some_iff.mp shown'
  obtain ⟨cut, noRoots⟩ := Prod.mk.inj cut
  obtain ⟨whole, roots⟩ := Prod.mk.inj whole
  obtain ⟨-, nests, nest⟩ := explanations_nest Sample.linked.engine ⟨3⟩ 1
  obtain ⟨deep, -, named⟩ := nest x explained
  obtain ⟨-, same, -⟩ := (explanations_nest Sample.linked.engine ⟨3⟩ 2).2.2 y explained'
  have pruned : x = prune 1 y := by simpa [explained, explained'] using nests 2 (by decide)
  exact ⟨x, y, explained, pruned, cut, deep.mp cut, (named 2 y (by decide) explained').2, noRoots,
    roots, (same whole).1, (same whole).2⟩

end Engine

end RuleEngine
