import RuleEngine.Proofs.Pattern.Outcomes
import RuleEngine.Proofs.Value.Sameness

/-! What a variable is matched as. Its chain is followed to the end, and there the value is bound,
or matched against what the last variable is bound to, or compared with the name that closes a
cycle.
-/

namespace RuleEngine

/-- The bare variables are the values that are read as variables. -/
theorem Bindings.bareVariable?_eq_none_iff {v : Value}
    : bareVariable? v = none ↔ ∀ name, Pattern.ofValue v ≠ .var name := by
  refine ⟨Pattern.ofValue_ne_var, fun notVar => ?_⟩
  cases bare : bareVariable? v with
  | none => rfl
  | some next =>
    obtain ⟨rfl, isVariable⟩ := eq_string_of_bareVariable? bare
    have notWildcard : next ≠ Pattern.wildcardText := by
      rintro rfl
      cases isVariable
    refine absurd ?_ (notVar next)
    simp [Pattern.ofValue, Pattern.ofText, notWildcard, isVariable]

namespace Pattern

section

variable {b : Bindings} {start last : String} {passed : List String} {v : Value}

/-- At a variable that is not bound, this one is bound to the value. -/
theorem match?_var_of_unbound (way : b.Way start last passed) (unbound : b.get? last = none)
    : (var start).match? v b = some ⟨true, b.insert last v⟩ :=
  ((outcome_var_of_chainEnd? (way.chainEnd?_eq (.unbound unbound))).mpr rfl).match?_eq

/-- At a value that is no bare variable, the match goes on with what this value is read as; if that
runs in circles, so does the match of the variable.
-/
theorem match?_var_of_value (way : b.Way start last passed) {bound : Value}
    (isBound : b.get? last = some bound) (notBare : Bindings.bareVariable? bound = none)
    : (var start).match? v b = (ofValue bound).match? v b := by
  have ends := way.chainEnd?_eq (.value isBound notBare)
  refine Option.ext fun r => ?_
  rw [match?_eq_some_iff, match?_eq_some_iff]
  exact outcome_var_of_chainEnd? ends

/-- At a name that was met before, the value is compared with it. -/
theorem match?_var_of_cycle (way : b.Way start last passed) {next : String}
    (bound : b.get? last = some (.string next)) (isVariable : Variable.isVariable next)
    (met : next ∈ last :: passed)
    : (var start).match? v b = some ⟨(Value.string next).same v, b⟩ :=
  ((outcome_var_of_chainEnd? (way.chainEnd?_eq (.cycle bound isVariable met))).mpr rfl).match?_eq

end

/-- To match a variable its chain is followed, and no longer than for one step more than there are
bindings. If the chain ends at an unbound variable, the match succeeds and binds this one to the
value, and nothing else. If it ends at what is no bare variable, this is matched as a pattern. If it
closes a cycle, wherever this one was entered, nothing is bound, and the match succeeds exactly at
the text that closes it.
-/
theorem match?_var_follows_chain (b : Bindings) (start : String) (v : Value)
    : (∃ last passed chainEnd, b.Way start last passed ∧ b.EndsIn last passed chainEnd
        ∧ passed.length + 1 ≤ b.size + 1
        ∧ ∀ steps, b.chase steps [start] start
          = if passed.length + 1 ≤ steps then some chainEnd else none)
      ∧ ∀ last passed, b.Way start last passed →
        (b.get? last = none →
          ∃ b', (var start).match? v b = some ⟨true, b'⟩
            ∧ ∀ name, b'.get? name = if name = last then some v else b.get? name)
        ∧ (∀ bound, b.get? last = some bound → (∀ name, ofValue bound ≠ var name) →
          (var start).match? v b = (ofValue bound).match? v b)
        ∧ ∀ next, b.get? last = some (.string next) → Variable.isVariable next →
          next ∈ last :: passed →
          ∃ isMatch, (var start).match? v b = some ⟨isMatch, b⟩
            ∧ (isMatch = true ↔ v = .string next) := by
  refine ⟨?_, fun last passed way => ⟨fun unbound => ?_, fun bound isBound notVar => ?_,
    fun next bound isVariable met => ?_⟩⟩
  · obtain ⟨last, passed, chainEnd, way, ends⟩ := b.exists_way start
    exact ⟨last, passed, chainEnd, way, ends, Nat.succ_le_succ way.length_le,
      way.chase_eq_ite ends⟩
  · exact ⟨_, match?_var_of_unbound way unbound, fun name => Fields.get?_insert b last v name⟩
  · exact match?_var_of_value way isBound (Bindings.bareVariable?_eq_none_iff.mpr notVar)
  · exact ⟨_, match?_var_of_cycle way bound isVariable met, Value.string_same_iff⟩

/-- A cycle need not lead back to the variable that it is entered from. -/
example
    : let b := ((Fields.empty.insert "?a" (.string "?b")).insert "?b" (.string "?c")).insert "?c"
        (.string "?b")
      ["?a", "?b", "?c"].map (fun text => ((var "?a").match? (.string text) b).map (·.isMatch))
        = [some false, some true, some false] := by
  decide +kernel

end Pattern

end RuleEngine
