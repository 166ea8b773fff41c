import RuleEngine.Schema.FieldType
import RuleEngine.Value.Text

/-! Schemas: what the fields of a kind of facts must be. -/

namespace RuleEngine

/-- What an absent field is set to: a value, or the values of a producer one after the other. -/
inductive FieldDefault where
  | value (v : Value)
  /-- A producer gives a value for each use; `used` counts the uses so far. -/
  | producer (produce : Nat → Value) (used : Nat)

namespace FieldDefault

/-- The value for this use, and the default for the next. -/
def produce : FieldDefault → Value × FieldDefault
  | value v => (v, value v)
  | producer produce used => (produce used, producer produce (used + 1))

def source : FieldDefault → String
  | value v => Text.tagged "Value" v.source
  | producer .. => Text.tagged "Producer" ".."

end FieldDefault

structure FieldSchema where
  name : String
  type : FieldType
  required : Bool
  default : Option FieldDefault
  /-- A test of values that are neither null nor undefined. -/
  validator : Option (Value → Bool)

def FieldSchema.source (f : FieldSchema) : String :=
  Text.record "FieldSchema"
    [("name", Text.quoted f.name), ("ty", f.type.source),
      ("default", Text.optional (f.default.map FieldDefault.source)),
      ("required", Text.flag f.required),
      ("validator", Text.optional (f.validator.map fun _ => Text.quoted ".."))]

/-- The schema of a kind. Its fields are checked in their order. -/
structure Schema where
  kind : String
  fields : List FieldSchema

def Schema.field? (s : Schema) (name : String) : Option FieldSchema :=
  s.fields.find? (·.name == name)

end RuleEngine
