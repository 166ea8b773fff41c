import RuleEngine.Expr.Basic
import RuleEngine.Expr.Operator

/-! Evaluation of expressions under bindings. -/

namespace RuleEngine

/-- What becomes of variables that are not bound: a failure, or undefined. -/
inductive Strictness where
  | strict
  | lenient
deriving DecidableEq

namespace Expr

def lookup (mode : Strictness) (b : Bindings) (name : String) : Except Failure Value :=
  match b.get? name, mode with
  | some v, _ => .ok v
  | none, .strict => .error (.unbound name)
  | none, .lenient => .ok .undefined

/-- Compares a size with the value of an operand. -/
def compareSize (size expected : Value) : Except Failure Value :=
  match expected with
  | .number _ => .ok (.bool (size.strictEq expected))
  | _ => .error (.guard .sizeOperand)

mutual

/-- The value of an expression. The number of operands is checked before any of them is
evaluated, and the first failure counts.
-/
def eval (mode : Strictness) (b : Bindings) : Expr → Except Failure Value
  | var name => lookup mode b name
  | lit value => .ok value
  | matcher _ => .error (.guard .misplacedMatcher)
  | call operator operands =>
    match Operator.named? operator with
    | none => .error (.guard (.unknownOperator operator))
    | some o =>
      if o.arity.accepts operands.length then
        match o with
        | .path => evalPath mode b operands
        | .pathOr => evalPathOr mode b operands
        | .hasSize => evalHasSize mode b operands
        | o => (evalAll mode b operands).bind o.apply
      else .error (.guard (.operandCount operator o.arity operands.length))

def evalAll (mode : Strictness) (b : Bindings) : List Expr → Except Failure (List Value)
  | [] => .ok []
  | e :: es => (eval mode b e).bind fun v => (evalAll mode b es).map (v :: ·)

/-- Walks from a value along keys. What cannot be followed ends the walk with undefined, and the
keys after it are not evaluated.
-/
def walk (mode : Strictness) (b : Bindings) : Value → List Expr → Except Failure Value
  | v, [] => .ok v
  | v, key :: keys =>
    (eval mode b key).bind fun key =>
      match Operator.step? v key with
      | some next => walk mode b next keys
      | none => .ok .undefined

/-- A target and the keys to follow from it. -/
def evalPath (mode : Strictness) (b : Bindings) : List Expr → Except Failure Value
  | target :: keys => (eval mode b target).bind fun v => walk mode b v keys
  | [] => .ok .undefined

/-- A value to fall back to, a target, and the keys to follow from it. -/
def evalPathOr (mode : Strictness) (b : Bindings) : List Expr → Except Failure Value
  | fallback :: target :: keys =>
    (eval mode b target).bind fun v =>
      (walk mode b v keys).bind fun found =>
        if found.isUndefined then eval mode b fallback else .ok found
  | _ => .ok .undefined

/-- A target, and a matcher or a number that its size is compared with. What has no size fails
the test before the size is looked at.
-/
def evalHasSize (mode : Strictness) (b : Bindings) : List Expr → Except Failure Value
  | [target, expected] =>
    (eval mode b target).bind fun v =>
      match v.size? with
      | none => .ok (.bool false)
      | some size =>
        match expected with
        | matcher accepts => .ok (.bool (accepts (.ofNat size)))
        | expected => (eval mode b expected).bind (compareSize (.ofNat size))
  | _ => .ok .undefined

end

/-- The value of an expression whose variables must be bound. -/
def evaluate (e : Expr) (b : Bindings) : Except Failure Value := e.eval .strict b

/-- The value of an expression whose unbound variables are undefined. -/
def evaluateLenient (e : Expr) (b : Bindings) : Except Failure Value := e.eval .lenient b

end Expr

end RuleEngine
