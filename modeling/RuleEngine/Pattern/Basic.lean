import RuleEngine.Value.Text
import RuleEngine.Variable

/-! Patterns, which values are matched against, and their reading from plain data. -/

namespace RuleEngine

inductive Pattern where
  | wildcard
  | test (accepts : Value → Bool)
  /-- Binds a variable, or compares with what it is bound to. -/
  | var (name : String)
  /-- The items of a list that its neighbours leave over; has a meaning only inside a list. -/
  | rest (name : String)
  /-- A list, item by item, with at most one rest. -/
  | seq (items : List Pattern)
  /-- A map or a fact that has the named fields, which are matched in this order. -/
  | record (fields : List (String × Pattern))
  | exact (value : Value)

instance : Inhabited Pattern := ⟨.wildcard⟩

namespace Pattern

/-- The text that stands for the wildcard in data. -/
def wildcardText : String := "_"

/-- A variable by its name, with or without the question mark. -/
def varNamed (name : String) : Pattern := var (Variable.ofName name)

/-- The rest of a list by its name, with or without dots and question mark. -/
def restNamed (name : String) : Pattern := rest (Variable.ofName name)

def ofText (s : String) : Pattern :=
  if s = wildcardText then wildcard
  else if Variable.isVariable s then var s
  else exact (.string s)

mutual

/-- The pattern that data stands for: the wildcard and variables as texts, lists and maps part by
part, and anything else exactly.
-/
def ofValue : Value → Pattern
  | .string s => ofText s
  | .list items => seq (ofItems items)
  | .map fields => record (ofFields fields)
  | .undefined => exact .undefined
  | .null => exact .null
  | .bool b => exact (.bool b)
  | .number n => exact (.number n)
  | .date i => exact (.date i)
  | .fact f => exact (.fact f)

/-- The patterns of the items of a list, among which a rest may stand. -/
def ofItems : List Value → List Pattern
  | [] => []
  | .string s :: items =>
    (if Variable.isRest s then restNamed s else ofText s) :: ofItems items
  | item :: items => ofValue item :: ofItems items

def ofFields {bound : Option String} : Fields bound → List (String × Pattern)
  | .nil => []
  | .cons key _ value more => (key, ofValue value) :: ofFields more

end

mutual

def source : Pattern → String
  | wildcard => wildcardText
  | test _ => "<predicate>"
  | var name => name
  | rest name => "..." ++ name
  | seq items => Text.list (sourceItems items)
  | record fields => Text.entries (sourceFields fields)
  | exact value => value.source

def sourceItems : List Pattern → List String
  | [] => []
  | item :: items => item.source :: sourceItems items

def sourceFields : List (String × Pattern) → List (String × String)
  | [] => []
  | (name, field) :: fields => (Text.quoted name, field.source) :: sourceFields fields

end

def isRest : Pattern → Bool
  | rest _ => true
  | _ => false

mutual

/-- The number of nodes, from which the depth of a match is bounded. -/
def size : Pattern → Nat
  | seq items => 1 + sizeItems items
  | record fields => 1 + sizeFields fields
  | _ => 1

def sizeItems : List Pattern → Nat
  | [] => 0
  | item :: items => item.size + sizeItems items

def sizeFields : List (String × Pattern) → Nat
  | [] => 0
  | (_, field) :: fields => field.size + sizeFields fields

end

end Pattern

end RuleEngine
