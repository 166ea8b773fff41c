import RuleEngine.Event.Basic
import RuleEngine.Json.Text

/-! Events as JSON documents. -/

namespace RuleEngine

namespace Value

mutual

/-- The document of a value in a trace: a number that is not finite is a string, and a fact is its
kind and identity.
-/
def traced : Value → Json
  | undefined => .null
  | null => .null
  | bool b => .bool b
  | number n => if n.isFinite then .number n else .string n.plain
  | string s => .string s
  | date i => .string (i.text .millis)
  | list items => .array (tracedItems items)
  | map fields => .object (tracedFields fields)
  | fact f => .object [("kind", .string f.kind), ("id", .nat f.id.number)]

def tracedItems : List Value → List Json
  | [] => []
  | item :: items => item.traced :: tracedItems items

def tracedFields {bound : Option String} : Fields bound → List (String × Json)
  | .nil => []
  | .cons key _ value more => (key, value.traced) :: tracedFields more

end

end Value

def Fields.traced (r : Record) : Json := .object (Value.tracedFields r)

def Failure.traced (f : Failure) : Json :=
  .object [("kind", .string f.name), ("message", .string f.message)]

namespace Event

/-- A member that may be absent. -/
def optionalMember (key : String) : Option Json → List (String × Json)
  | none => []
  | some value => [(key, value)]

/-- The parts of an event as members of an object. -/
def members : Event → List (String × Json)
  | definitionAdded id kind replaced =>
    [("id", .string id), ("definition", .string kind.text), ("replaced", .bool replaced)]
  | definitionRemoved id kind => [("id", .string id), ("definition", .string kind.text)]
  | factAsserted fact logical producedBy =>
    [("fact", (Value.fact fact).traced), ("logical", .bool logical)] ++
      optionalMember "produced_by" (producedBy.map fun id => .nat id.number)
  | factRetracted fact => [("fact", (Value.fact fact).traced)]
  | schemaError failure => [("error", failure.traced)]
  | activationsFound trigger count => [("trigger", .nat trigger.number), ("count", .nat count)]
  | activationSelected rule bindings => [("rule", .string rule), ("bindings", bindings.traced)]
  | preConditionPassed rule => [("rule", .string rule)]
  | preConditionFailed rule failure =>
    ("rule", .string rule) :: optionalMember "error" (failure.map Failure.traced)
  | guardError definition guard failure =>
    [("source", .string definition), ("guard", .string guard), ("error", failure.traced)]
  | activationFired activation rule failed =>
    [("activation", .nat activation.number), ("rule", .string rule), ("failed", .bool failed)]
  | actionErrorHandled rule failure => [("rule", .string rule), ("error", failure.traced)]
  | postConditionFailed rule index => [("rule", .string rule), ("index", .nat index)]
  | hookError rule hook failure =>
    [("rule", .string rule), ("hook", .string hook), ("error", failure.traced)]
  | engineError definition failure =>
    optionalMember "source" (definition.map .string) ++ [("error", failure.traced)]
  | projectionError query field failure =>
    [("query", .string query), ("field", .string field), ("error", failure.traced)]
  | queryStarted query => [("query", .string query)]
  | queryCompleted query rows => [("query", .string query), ("rows", .nat rows)]
  | activationInvalidated activation rule cause =>
    [("activation", .nat activation.number), ("rule", .string rule), ("cause", .nat cause.number)]
  | logicalRetracted fact activation =>
    [("fact", .nat fact.number), ("activation", .nat activation.number)]

end Event

end RuleEngine
