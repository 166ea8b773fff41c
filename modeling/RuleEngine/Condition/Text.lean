import RuleEngine.Condition.Basic

/-! Conditions as structured text. -/

namespace RuleEngine

/-- The source text of an accumulator: its aggregate and its field. -/
def Accumulator.source (a : Accumulator) : String :=
  Text.record "Accumulator"
    [("op", a.aggregate.name), ("field", Text.optional (a.field.map Text.quoted))]

def Condition.source : Condition → String
  | pattern c =>
    Text.tagged "Pattern" (Text.record "PatternCondition"
      [("kind", Text.quoted c.kind), ("pattern", c.pattern.source),
        ("alias", Text.optional (c.factName.map Text.quoted)),
        ("guards", Text.list (c.guards.map Expr.text))])
  | accumulate c =>
    Text.tagged "Accumulate" (Text.record "AccumulateCondition"
      [("kind", Text.quoted c.kind), ("pattern", c.pattern.source),
        ("accumulator", c.accumulator.source), ("target", Text.quoted c.target)])
  | lacks c =>
    Text.tagged "Lacks" (Text.record "LacksCondition"
      [("kind", Text.quoted c.kind), ("pattern", c.pattern.source)])

end RuleEngine
