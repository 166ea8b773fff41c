import RuleEngine.Text.Layout
import RuleEngine.Text.Quoted
import RuleEngine.Value.Basic

/-! Declared types of fields: shapes of values, or the name of another schema. -/

namespace RuleEngine

inductive FieldType where
  | any
  | string
  | number
  | boolean
  | date
  | array
  /-- A map or a fact. -/
  | object
  /-- A map or a fact of the named kind, which has a schema. -/
  | named (kind : String)
deriving DecidableEq

namespace FieldType

/-- The type that a name denotes; a name that denotes no shape is the name of a schema. -/
def ofName (name : String) : FieldType :=
  match name with
  | "any" => any
  | "string" => string
  | "number" => number
  | "boolean" => boolean
  | "date" => date
  | "array" => array
  | "object" => object
  | kind => named kind

def name : FieldType → String
  | any => "any"
  | string => "string"
  | number => "number"
  | boolean => "boolean"
  | date => "date"
  | array => "array"
  | object => "object"
  | named kind => kind

def source : FieldType → String
  | any => "Any"
  | string => "String"
  | number => "Number"
  | boolean => "Boolean"
  | date => "Date"
  | array => "Array"
  | object => "Object"
  | named kind => Text.tagged "Named" (Text.quoted kind)

def isNamed : FieldType → Bool
  | named _ => true
  | _ => false

/-- Whether a value has the shape of a type. A named type needs the registry, so it has no
answer here.
-/
def accepts? : FieldType → Value → Option Bool
  | any, _ => some true
  | string, .string _ => some true
  | number, .number _ => some true
  | boolean, .bool _ => some true
  | date, .date _ => some true
  | array, .list _ => some true
  | object, .map _ => some true
  | object, .fact _ => some true
  | named _, _ => none
  | _, _ => some false

end FieldType

end RuleEngine
