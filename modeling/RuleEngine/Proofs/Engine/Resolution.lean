import Mathlib.Data.List.Induction
import RuleEngine.Rule.Activation

/-! Conflict resolution. What is selected has the highest salience, and comes first among those that
have it.
-/

namespace RuleEngine

namespace Activation

variable {ν : Type} {candidates : List (Activation ν)} {a : Activation ν}

/-- A further candidate is selected only if it has more salience than all before it. -/
theorem resolve_append_singleton (candidates : List (Activation ν)) (last : Activation ν)
    : resolve (candidates ++ [last])
      = match resolve candidates with
        | none => some last
        | some best =>
          if last.rule.salience ≤ best.rule.salience then some best else some last := by
  rw [resolve, List.foldl_append]
  rfl

/-- Something is selected unless there is nothing to select from. -/
theorem resolve_eq_none_iff : resolve candidates = none ↔ candidates = [] := by
  induction candidates using List.reverseRecOn with
  | nil => simp [resolve]
  | append_singleton earlier last ih =>
    rw [resolve_append_singleton]
    cases resolve earlier with
    | none => simp
    | some best => by_cases lower : last.rule.salience ≤ best.rule.salience <;> simp [lower]

/-- What is selected has more salience than what comes before it, and no less than what comes after
it; by induction on the candidates from the last one back.
-/
theorem exists_split_of_resolve (selected : resolve candidates = some a)
    : ∃ before after, candidates = before ++ a :: after
        ∧ (∀ other ∈ before, other.rule.salience < a.rule.salience)
        ∧ ∀ other ∈ after, other.rule.salience ≤ a.rule.salience := by
  induction candidates using List.reverseRecOn generalizing a with
  | nil => simp [resolve] at selected
  | append_singleton earlier last ih =>
    rw [resolve_append_singleton] at selected
    cases best : resolve earlier with
    | none =>
      obtain rfl := resolve_eq_none_iff.mp best
      simp only [best, Option.some.injEq] at selected
      exact ⟨[], [], by simp [selected], by simp, by simp⟩
    | some b =>
      obtain ⟨before, after, rfl, above, atLeast⟩ := ih best
      simp only [best] at selected
      split at selected
      · rename_i lower
        obtain rfl := Option.some.inj selected
        refine ⟨before, after ++ [last], by simp, above, ?_⟩
        intro other member
        rcases List.mem_append.mp member with earlier | same
        · exact atLeast other earlier
        · exact List.mem_singleton.mp same ▸ lower
      · rename_i higher
        obtain rfl := Option.some.inj selected
        refine ⟨before ++ b :: after, [], by simp, ?_, by simp⟩
        intro other member
        refine Int.lt_of_le_of_lt ?_ (Int.not_le.mp higher)
        rcases List.mem_append.mp member with earlier | later
        · exact Int.le_of_lt (above other earlier)
        · rcases List.mem_cons.mp later with rfl | later
          · exact Int.le_refl _
          · exact atLeast other later

/-- Conflict resolution selects one of the candidates. -/
theorem mem_of_resolve (selected : resolve candidates = some a) : a ∈ candidates := by
  obtain ⟨before, after, rfl, -⟩ := exists_split_of_resolve selected
  simp

end Activation

end RuleEngine
