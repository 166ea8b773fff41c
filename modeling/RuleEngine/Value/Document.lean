import RuleEngine.Json.Basic
import RuleEngine.Value.Text

/-! Values as JSON documents for exchange: what JSON cannot say is null, and a fact is its fields
with its identity.
-/

namespace RuleEngine

namespace Value

def documentNumber (n : Number) : Json := if n.isFinite then .number n else .null

mutual

/-- The document of a value. A fact has its identity under `id`, unless a field has that name. -/
def document : Value → Json
  | undefined => .null
  | null => .null
  | bool b => .bool b
  | number n => documentNumber n
  | string s => .string s
  | date i => .string (i.text .least)
  | list items => .array (documentItems items)
  | map fields => .object (documentFields fields)
  | fact f => documentFact f

def documentItems : List Value → List Json
  | [] => []
  | item :: items => item.document :: documentItems items

def documentFields {bound : Option String} : Fields bound → List (String × Json)
  | .nil => []
  | .cons key _ value more => (key, value.document) :: documentFields more

def documentFact : Fact → Json
  | ⟨id, _, fields⟩ =>
    let members := documentFields fields
    if fields.contains "id" then .object members else .object (("id", .nat id.number) :: members)

end

end Value

end RuleEngine
