import RuleEngine.Rule.Basic

/-! Activations, and which of several fires. -/

namespace RuleEngine

/-- A rule with a match of its conditions. -/
structure Activation (ν : Type) where
  rule : Rule ν
  bindings : Bindings
  /-- The facts of the pattern conditions, in the order of the conditions. -/
  consumed : List FactId

namespace Activation

variable {ν : Type}

/-- The activation that fires: the first of those with the highest salience. -/
def resolve (candidates : List (Activation ν)) : Option (Activation ν) :=
  candidates.foldl
    (fun best candidate =>
      match best with
      | none => some candidate
      | some b => if candidate.rule.salience ≤ b.rule.salience then some b else some candidate)
    none

end Activation

end RuleEngine
