import RuleEngine.Agenda
import RuleEngine.Condition.Text
import RuleEngine.Query
import RuleEngine.Schema.Registry
import RuleEngine.Tracked

/-! What the body of a rule sees of the engine that it runs in. A body cannot look at the
configuration of the engine, at the listeners, or into the bodies of rules.
-/

namespace RuleEngine

/-- A rule without its bodies. -/
structure Outline where
  id : String
  salience : Int
  conditions : List Condition
  guards : List Expr
  postConditions : List Condition
  /-- There is a hook around the action. -/
  around : Bool
  /-- There is a hook that runs last. -/
  after : Bool
  /-- The names of the failures that are handled. -/
  handled : List String

def Outline.source (o : Outline) : String :=
  Text.openRecord "Rule"
    [("id", Text.quoted o.id), ("salience", toString o.salience),
      ("when", Text.list (o.conditions.map Condition.source)),
      ("pre", Text.list (o.guards.map Expr.text)),
      ("post", Text.list (o.postConditions.map Condition.source)),
      ("around", Text.flag o.around), ("after", Text.flag o.after),
      ("throws", Text.list (o.handled.map Text.quoted))]

/-- What is shown of a definition. -/
inductive Shown where
  | rule (outline : Outline)
  | query (q : Query)

structure View (ν : Type) where
  store : Store
  registry : Registry
  /-- The tasks that wait. -/
  agenda : Agenda
  definitions : List Shown
  tracked : List Tracked
  /-- What bodies have noted so far. A body that remembers something from one time that it runs to
  another has noted it.
  -/
  notes : List ν

end RuleEngine
