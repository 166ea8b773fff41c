import RuleEngine.Number.Basic

/-! JSON documents. An object is the list of its members as they are written. -/

namespace RuleEngine

inductive Json where
  | null
  | bool (b : Bool)
  | number (n : Number)
  /-- An identity or a count, which is written in full. -/
  | nat (n : Nat)
  | string (s : String)
  | array (items : List Json)
  | object (members : List (String × Json))

instance : Inhabited Json := ⟨.null⟩

namespace Json

def ofOption : Option Json → Json
  | none => null
  | some j => j

end Json

end RuleEngine
