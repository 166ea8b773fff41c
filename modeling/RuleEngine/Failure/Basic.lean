import RuleEngine.Value.Text

/-! Why an operation fails. Each failure has a message, and a name by which handlers are chosen. -/

namespace RuleEngine

inductive Arity where
  | exactly (count : Nat)
  | atLeast (count : Nat)
deriving DecidableEq

def Arity.accepts (a : Arity) (count : Nat) : Bool :=
  match a with
  | .exactly n => count == n
  | .atLeast n => n ≤ count

def Arity.text : Arity → String
  | .exactly n => toString n
  | .atLeast n => "at least " ++ toString n

/-- What is wrong with an expression or its operands. -/
inductive GuardFault where
  /-- A fault that is reported in words. -/
  | stated (message : String)
  /-- The data is not an expression. -/
  | malformed (data : Value)
  | unknownOperator (name : String)
  | operandCount (operator : String) (arity : Arity) (count : Nat)
  /-- An operand of the named type where a number is needed. -/
  | notNumeric (operator typeName : String)
  /-- A size is compared with neither a number nor a matcher. -/
  | sizeOperand
  /-- A matcher stands where a value is needed. -/
  | misplacedMatcher

namespace GuardFault

def message : GuardFault → String
  | stated message => message
  | malformed data => "guard not a well-formed expression: " ++ data.source
  | unknownOperator name => "unknown operator '" ++ name ++ "'"
  | operandCount operator arity count =>
    "'" ++ operator ++ "' expects " ++ arity.text ++ " operands, got " ++ toString count
  | notNumeric operator typeName =>
    "'" ++ operator ++ "' expects numeric operands, got " ++ typeName
  | sizeOperand => "hasSize expects a number or matcher"
  | misplacedMatcher => "matcher used outside hasSize"

end GuardFault

/-- How a field breaks its schema. -/
inductive Violation where
  /-- A violation that is reported in words. -/
  | stated (message : String)
  | missing
  | mistyped (expected actual : String)
  | rejected

namespace Violation

def message : Violation → String
  | stated message => message
  | missing => "required field is missing"
  | mistyped expected actual => "expected " ++ expected ++ ", got " ++ actual
  | rejected => "custom validation failed"

end Violation

inductive Failure where
  | missingKind
  /-- A definition is not acceptable. -/
  | definition (message : String)
  /-- A field of a record breaks the schema of its kind. -/
  | validation (kind field : String) (violation : Violation)
  /-- A schema names a type that is neither a shape nor a schema. -/
  | unknownType (name : String)
  /-- An expression cannot be evaluated. -/
  | guard (fault : GuardFault)
  | divisionByZero
  | unbound (name : String)
  /-- A field of a row cannot be computed. -/
  | projection (field message : String)
  /-- A rule fails with a name and a message of its own. -/
  | action (name message : String)
  | unknownDefinition (id : String)
  | factNotFound (id : FactId)
  /-- A run has fired as many activations as it may. -/
  | limit (most : Nat)
  | internal (message : String)

namespace Failure

/-- The name by which handlers are chosen. -/
def name : Failure → String
  | action name _ => name
  | missingKind | validation .. | unknownType _ => "ValidationError"
  | definition _ | unknownDefinition _ => "DefinitionError"
  | guard _ | divisionByZero | unbound _ => "GuardError"
  | projection .. => "ProjectionError"
  | factNotFound _ => "FactNotFound"
  | limit _ => "LimitExceeded"
  | internal _ => "InternalError"

def message : Failure → String
  | missingKind => "fact is missing a non-empty `kind`"
  | definition message => "invalid definition: " ++ message
  | validation kind field violation =>
    "validation failed for " ++ kind ++ "." ++ field ++ ": " ++ violation.message
  | unknownType name => "unknown type: " ++ name
  | guard fault => "guard error: " ++ fault.message
  | divisionByZero => "division by zero"
  | unbound name => "unbound variable: " ++ name
  | projection field message => "projection error in field " ++ field ++ ": " ++ message
  | action name message => name ++ ": " ++ message
  | unknownDefinition id => "unknown definition: " ++ id
  | factNotFound id => "fact not found: " ++ id.text
  | limit most => "limit exceeded: max activations (" ++ toString most ++ ") exceeded"
  | internal message => "internal error: " ++ message

/-- Whether a failure goes by the name of those that evaluation raises. -/
def isGuardFailure (f : Failure) : Bool := f.name == "GuardError"

end Failure

end RuleEngine
