import RuleEngine.Failure.Basic
import RuleEngine.Value.Equality

/-! Operators of expressions: their names, how many operands they take, and what they make of
operands that are values.
-/

namespace RuleEngine

inductive Operator where
  | greater
  | greaterEq
  | less
  | lessEq
  | equal
  | unequal
  | add
  | subtract
  | multiply
  | divide
  | path
  | pathOr
  | isNil
  | isDefined
  | hasSize
deriving DecidableEq

namespace Operator

def all : List Operator :=
  [greater, greaterEq, less, lessEq, equal, unequal, add, subtract, multiply, divide, path, pathOr,
    isNil, isDefined, hasSize]

def name : Operator → String
  | greater => ">"
  | greaterEq => ">="
  | less => "<"
  | lessEq => "<="
  | equal => "==="
  | unequal => "!=="
  | add => "+"
  | subtract => "-"
  | multiply => "*"
  | divide => "/"
  | path => "path"
  | pathOr => "pathOr"
  | isNil => "isNil"
  | isDefined => "isDefined"
  | hasSize => "hasSize"

def named? (name : String) : Option Operator := all.find? (·.name == name)

def arity : Operator → Arity
  | greater | greaterEq | less | lessEq | equal | unequal | divide | hasSize => .exactly 2
  | isNil | isDefined => .exactly 1
  | add | multiply => .atLeast 0
  | subtract | path => .atLeast 1
  | pathOr => .atLeast 2

/-- The number that an operand stands for. -/
def numeric (o : Operator) (v : Value) : Except Failure Number :=
  match v.numeric? with
  | some n => .ok n
  | none => .error (.guard (.notNumeric o.name v.typeName))

/-- Combines numbers from the left, starting with a number; the first operand that is no number
is the fault.
-/
def foldNumbers (o : Operator) (combine : Number → Number → Number) (start : Number)
    (vs : List Value) : Except Failure Number :=
  vs.foldlM (fun n v => (o.numeric v).map (combine n)) start

def comparison (o : Operator) (test : Number → Number → Bool) (a b : Value)
    : Except Failure Value := do
  let a ← o.numeric a
  let b ← o.numeric b
  return .bool (test a b)

/-- The sum of numbers. If an operand is a text, the texts of all operands are joined instead. -/
def sum (vs : List Value) : Except Failure Value :=
  if vs.any fun v => v.string?.isSome then .ok (.string (String.join (vs.map Value.text)))
  else (add.foldNumbers (· + ·) .zero vs).map .number

/-- The quotient of two numbers. Division by either zero is a failure of its own. -/
def quotient (a b : Value) : Except Failure Value := do
  let a ← divide.numeric a
  let b ← divide.numeric b
  if b.numericEq .zero then .error .divisionByZero else return .number (a / b)

/-- The result of an operator whose operands are all evaluated first. -/
def apply (o : Operator) (vs : List Value) : Except Failure Value :=
  match o, vs with
  | greater, [a, b] => o.comparison (fun a b => b.numericLt a) a b
  | greaterEq, [a, b] => o.comparison (fun a b => b.numericLe a) a b
  | less, [a, b] => o.comparison Number.numericLt a b
  | lessEq, [a, b] => o.comparison Number.numericLe a b
  | equal, [a, b] => .ok (.bool (a.strictEq b))
  | unequal, [a, b] => .ok (.bool (!a.strictEq b))
  | add, vs => sum vs
  | subtract, [v] => (o.numeric v).map fun n => .number (-n)
  | subtract, v :: vs => do
    let n ← o.numeric v
    (o.foldNumbers (· - ·) n vs).map .number
  | multiply, vs => (o.foldNumbers (· * ·) .one vs).map .number
  | divide, [a, b] => quotient a b
  | isNil, [v] => .ok (.bool v.isNil)
  | isDefined, [v] => .ok (.bool !v.isNil)
  | _, _ => .error (.internal "operand count changed")

/-- One step along a path: a named entry of a map or a fact, or a numbered item of a list. -/
def step? (v key : Value) : Option Value :=
  match v, key with
  | .map _, .string name => v.field? name
  | .fact _, .string name => v.field? name
  | .list items, .number n => n.index?.bind (items[·]?)
  | _, _ => none

end Operator

end RuleEngine
