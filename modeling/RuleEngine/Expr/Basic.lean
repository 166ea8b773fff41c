import RuleEngine.Failure.Basic
import RuleEngine.Variable

/-! Expressions: an operator's name and its operands, which are variables, literals or expressions
again. In data an expression is a list that starts with the operator's name.
-/

namespace RuleEngine

inductive Expr where
  | var (name : String)
  | lit (value : Value)
  | call (operator : String) (operands : List Expr)
  /-- A test of a size, given as a function. -/
  | matcher (accepts : Value → Bool)

instance : Inhabited Expr := ⟨.lit .undefined⟩

namespace Expr

/-- A variable by its name, with or without the question mark. -/
def varNamed (name : String) : Expr := var (Variable.marked name)

/-- The operand that a text stands for: a variable or itself. -/
def ofText (s : String) : Expr :=
  if Variable.isVariable s then var s else lit (.string s)

mutual

/-- The expression that the items of a list stand for. -/
def ofItems : List Value → Except Failure Expr
  | .string operator :: operands => (ofOperands operands).map (call operator)
  | items => .error (.guard (.malformed (.list items)))

/-- The operands that values stand for; the first fault counts. -/
def ofOperands : List Value → Except Failure (List Expr)
  | [] => .ok []
  | v :: vs =>
    match ofOperand v with
    | .error failure => .error failure
    | .ok operand => (ofOperands vs).map (operand :: ·)

/-- The operand that a value stands for: an expression, a variable, or itself. -/
def ofOperand : Value → Except Failure Expr
  | .list items => ofItems items
  | .string s => .ok (ofText s)
  | v => .ok (lit v)

end

/-- The expression that data stands for. -/
def ofValue : Value → Except Failure Expr
  | .list items => ofItems items
  | v => .error (.guard (.malformed v))

mutual

def text : Expr → String
  | var name => name
  | lit value => value.source
  | call operator operands => "(" ++ operator ++ textOperands operands ++ ")"
  | matcher _ => "<matcher>"

def textOperands : List Expr → String
  | [] => ""
  | operand :: operands => " " ++ operand.text ++ textOperands operands

end

end Expr

end RuleEngine
