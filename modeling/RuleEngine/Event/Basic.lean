import RuleEngine.Failure.Basic
import RuleEngine.Store.Basic
import RuleEngine.Variable

/-! Events: what an engine reports about its work, each with a stable name. -/

namespace RuleEngine

inductive DefinitionKind where
  | rule
  | query
deriving DecidableEq

def DefinitionKind.text : DefinitionKind → String
  | rule => "rule"
  | query => "query"

inductive Event where
  | definitionAdded (id : String) (kind : DefinitionKind) (replaced : Bool)
  | definitionRemoved (id : String) (kind : DefinitionKind)
  | factAsserted (fact : Fact) (logical : Bool) (producedBy : Option ActivationId)
  | factRetracted (fact : Fact)
  /-- A record breaks the schema of its kind. -/
  | schemaError (failure : Failure)
  /-- The activations for an asserted fact are counted. -/
  | activationsFound (trigger : FactId) (count : Nat)
  | activationSelected (rule : String) (bindings : Bindings)
  | preConditionPassed (rule : String)
  /-- A guard of a rule is not true, or cannot be evaluated. -/
  | preConditionFailed (rule : String) (failure : Option Failure)
  /-- A guard of a condition cannot be evaluated. -/
  | guardError (definition guard : String) (failure : Failure)
  | activationFired (activation : ActivationId) (rule : String) (failed : Bool)
  /-- A handler took care of the failure of an action. -/
  | actionErrorHandled (rule : String) (failure : Failure)
  | postConditionFailed (rule : String) (index : Nat)
  | hookError (rule hook : String) (failure : Failure)
  | engineError (definition : Option String) (failure : Failure)
  | projectionError (query field : String) (failure : Failure)
  | queryStarted (query : String)
  | queryCompleted (query : String) (rows : Nat)
  /-- A fact that an activation consumed is gone. -/
  | activationInvalidated (activation : ActivationId) (rule : String) (cause : FactId)
  /-- A fact went with the activation that justified it. -/
  | logicalRetracted (fact : FactId) (activation : ActivationId)

namespace Event

def name : Event → String
  | definitionAdded .. => "definition-added"
  | definitionRemoved .. => "definition-removed"
  | factAsserted .. => "fact-asserted"
  | factRetracted .. => "fact-retracted"
  | schemaError .. => "schema-error"
  | activationsFound .. => "activations-found"
  | activationSelected .. => "activation-selected"
  | preConditionPassed .. => "pre-condition-passed"
  | preConditionFailed .. => "pre-condition-failed"
  | guardError .. => "guard-error"
  | activationFired .. => "activation-fired"
  | actionErrorHandled .. => "action-error-handled"
  | postConditionFailed .. => "post-condition-failed"
  | hookError .. => "hook-error"
  | engineError .. => "engine-error"
  | projectionError .. => "projection-error"
  | queryStarted .. => "query-started"
  | queryCompleted .. => "query-completed"
  | activationInvalidated .. => "activation-invalidated"
  | logicalRetracted .. => "logical-retracted"

/-- Whether an event reports a failure. Failures that were provided for do not count. -/
def isError : Event → Bool
  | schemaError .. | guardError .. | hookError .. | engineError .. | projectionError .. => true
  | activationFired _ _ failed => failed
  | _ => false

/-- A remark in parentheses, if it applies. -/
def remark (applies : Bool) (text : String) : String := if applies then " (" ++ text ++ ")" else ""

/-- What the text of an event says after its name. -/
def details : Event → String
  | definitionAdded id kind replaced =>
    " " ++ kind.text ++ " " ++ id ++ remark replaced "replaced"
  | definitionRemoved id kind => " " ++ kind.text ++ " " ++ id
  | factAsserted fact logical _ =>
    " " ++ fact.kind ++ " " ++ fact.id.text ++ remark logical "logical"
  | factRetracted fact => " " ++ fact.kind ++ " " ++ fact.id.text
  | schemaError failure => ": " ++ failure.message
  | activationsFound trigger count => " " ++ toString count ++ " for " ++ trigger.text
  | activationSelected rule _ => " " ++ rule
  | preConditionPassed rule => " " ++ rule
  | preConditionFailed rule none => " " ++ rule
  | preConditionFailed rule (some failure) => " " ++ rule ++ ": " ++ failure.message
  | guardError definition guard failure =>
    " " ++ definition ++ " " ++ guard ++ ": " ++ failure.message
  | activationFired activation rule failed =>
    " " ++ rule ++ " " ++ activation.text ++ remark failed "failed"
  | actionErrorHandled rule failure => " " ++ rule ++ ": " ++ failure.message
  | postConditionFailed rule index => " " ++ rule ++ " #" ++ toString index
  | hookError rule hook failure => " " ++ rule ++ " " ++ hook ++ ": " ++ failure.message
  | engineError none failure => ": " ++ failure.message
  | engineError (some definition) failure => " " ++ definition ++ ": " ++ failure.message
  | projectionError query field failure => " " ++ query ++ "." ++ field ++ ": " ++ failure.message
  | queryStarted query => " " ++ query
  | queryCompleted query rows => " " ++ query ++ " (" ++ toString rows ++ " rows)"
  | activationInvalidated activation rule cause =>
    " " ++ rule ++ " " ++ activation.text ++ " by " ++ cause.text
  | logicalRetracted fact activation => " " ++ fact.text ++ " from " ++ activation.text

/-- An event in one text: its name and what there is to say about it. -/
def text (e : Event) : String := e.name ++ e.details

end Event

end RuleEngine
