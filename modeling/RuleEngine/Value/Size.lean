import RuleEngine.Value.Basic

/-! The size of values, by which recursion through them is bounded. -/

namespace RuleEngine

namespace Value

mutual

def nodes : Value → Nat
  | .list items => 1 + nodesItems items
  | .map fields => 1 + nodesFields fields
  | .fact f => 1 + nodesFact f
  | _ => 1

def nodesItems : List Value → Nat
  | [] => 0
  | item :: items => item.nodes + nodesItems items

def nodesFields {bound : Option String} : Fields bound → Nat
  | .nil => 0
  | .cons _ _ value more => value.nodes + nodesFields more

def nodesFact : Fact → Nat
  | ⟨_, _, fields⟩ => nodesFields fields

end

end Value

end RuleEngine
