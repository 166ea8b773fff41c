import RuleEngine.Accumulator
import RuleEngine.Expr.Basic
import RuleEngine.Pattern.Basic

/-! Conditions of rules and queries. Each looks at the facts of one kind. -/

namespace RuleEngine

/-- Asks for a fact that matches, may name it, and may put it to guards. -/
structure PatternCondition where
  kind : String
  pattern : Pattern
  /-- The name of the fact, without a question mark. -/
  factName : Option String
  guards : List Expr

/-- Binds a variable to the aggregate of all facts that match. -/
structure AccumulateCondition where
  kind : String
  pattern : Pattern
  accumulator : Accumulator
  /-- The variable, with its question mark. -/
  target : String

structure LacksCondition where
  kind : String
  pattern : Pattern

inductive Condition where
  | pattern (c : PatternCondition)
  | accumulate (c : AccumulateCondition)
  | lacks (c : LacksCondition)

namespace Condition

def kind : Condition → String
  | pattern c => c.kind
  | accumulate c => c.kind
  | lacks c => c.kind

/-- The name of a fact, whatever question marks it is given with. -/
def bareName (name : String) : String :=
  String.ofList (name.toList.dropWhile (· == '?'))

def matching (kind : String) (p : Pattern) (name : Option String) (guards : List Expr)
    : Condition :=
  pattern ⟨kind, p, name.map bareName, guards⟩

/-- An accumulate condition whose target may be given without its question mark. -/
def accumulating (kind : String) (p : Pattern) (a : Accumulator) (target : String) : Condition :=
  accumulate ⟨kind, p, a, Variable.marked target⟩

def lacking (kind : String) (p : Pattern) : Condition := lacks ⟨kind, p⟩

end Condition

end RuleEngine
