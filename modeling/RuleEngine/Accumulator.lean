import RuleEngine.Calendar.Reading
import RuleEngine.Number.Literal
import RuleEngine.Value.Equality

/-! Aggregates over facts. What an aggregate cannot use it passes over, and each has a value for
the case that nothing is left.
-/

namespace RuleEngine

inductive Aggregate where
  | count
  | sum
  /-- The mean of numbers and truth values, or zero. -/
  | average
  | minNumber
  | maxNumber
  | minDate
  | maxDate
  /-- The first in order of the texts that are neither numbers nor dates. -/
  | minString
  | maxString
  | minBoolean
  | maxBoolean
  /-- All values, missing ones included. -/
  | collect
  /-- The values without repetition, each at its first place. -/
  | distinctCollect
  /-- An aggregate that is given as a function of the facts. -/
  | custom (name : String) (apply : List Fact → Value)

def Aggregate.name : Aggregate → String
  | count => "count"
  | sum => "sum"
  | average => "average"
  | minNumber => "minNumber"
  | maxNumber => "maxNumber"
  | minDate => "minDate"
  | maxDate => "maxDate"
  | minString => "minString"
  | maxString => "maxString"
  | minBoolean => "minBoolean"
  | maxBoolean => "maxBoolean"
  | collect => "collect"
  | distinctCollect => "distinctCollect"
  | custom name _ => name

/-- The aggregates that are not given as functions. -/
def Aggregate.builtin : List Aggregate :=
  [count, sum, average, minNumber, maxNumber, minDate, maxDate, minString, maxString, minBoolean,
    maxBoolean, collect, distinctCollect]

def Aggregate.named? (name : String) : Option Aggregate := builtin.find? (·.name == name)

/-- An aggregate and the field that it reads. Without a field it reads the facts themselves. -/
structure Accumulator where
  aggregate : Aggregate
  field : Option String

namespace Accumulator

-- --------------------------------------------------------------------------------------
-- What aggregates can use
-- --------------------------------------------------------------------------------------

/-- Whether a text reads as a number that is not not-a-number. -/
def looksNumeric (s : String) : Bool :=
  let trimmed := Text.trim s.toList
  ["Infinity", "+Infinity", "-Infinity"].any (·.toList == trimmed) || Number.isFiniteLiteral trimmed

/-- The instant that a value gives: a date, a text that names one, or a number of milliseconds. -/
def instant? : Value → Option Instant
  | .date i => some i
  | .string s => Instant.ofText? s
  | .number n => if n.isFinite then Instant.ofMillis? n.toInt else none
  | _ => none

/-- A text that reads neither as a number nor as a date. -/
def plainText? : Value → Option String
  | .string s => if !looksNumeric s && (Instant.ofText? s).isNone then some s else none
  | _ => none

-- --------------------------------------------------------------------------------------
-- Combining
-- --------------------------------------------------------------------------------------

def sum (ns : List Number) : Number := ns.foldl (· + ·) .zero

/-- The mean of numbers, or zero if there is none. -/
def mean (ns : List Number) : Number :=
  if ns.isEmpty then .zero else sum ns / .ofNat ns.length

/-- The least of a start and numbers. Not-a-number is passed over, and of equal numbers the
earlier one is kept.
-/
def least (ns : List Number) : Number :=
  ns.foldl (fun best n => if n.numericLt best then n else best) .infinity

/-- The greatest of a start and numbers, in the same way. -/
def greatest (ns : List Number) : Number :=
  ns.foldl (fun best n => if best.numericLt n then n else best) .negInfinity

/-- The first of some items in an order, if there is an item. -/
def first? {α : Type} (order : α → α → Ordering) : List α → Option α
  | [] => none
  | x :: xs => some (xs.foldl (fun best y => if order y best == .lt then y else best) x)

/-- The last of some items in an order, if there is an item. -/
def last? {α : Type} (order : α → α → Ordering) : List α → Option α
  | [] => none
  | x :: xs => some (xs.foldl (fun best y => if order y best == .gt then y else best) x)

/-- The values without those that are the same as an earlier one. -/
def distinct (vs : List Value) : List Value :=
  vs.foldl (fun seen v => if v.isAmong seen then seen else seen ++ [v]) []

/-- What is read from a fact: the field, which may be missing, or the fact. -/
def project (a : Accumulator) (f : Fact) : Value :=
  match a.field with
  | some field => .ofOption (f.get? field)
  | none => .fact f

/-- The value of a missing result and of a present one. -/
def orElse {α : Type} (missing : Value) (present : α → Value) : Option α → Value
  | none => missing
  | some x => present x

def apply (a : Accumulator) (facts : List Fact) : Value :=
  let values := facts.map a.project
  match a.aggregate with
  | .count => .ofNat facts.length
  | .sum => .number (sum (values.filterMap Value.numeric?))
  | .average => .number (mean (values.filterMap Value.numeric?))
  | .minNumber => .number (least (values.filterMap Value.number?))
  | .maxNumber => .number (greatest (values.filterMap Value.number?))
  | .minDate => orElse .null .date (first? Instant.compare (values.filterMap instant?))
  | .maxDate => orElse .null .date (last? Instant.compare (values.filterMap instant?))
  | .minString => orElse .undefined .string (first? compare (values.filterMap plainText?))
  | .maxString => orElse .undefined .string (last? compare (values.filterMap plainText?))
  | .minBoolean => orElse .null .bool (first? compare (values.filterMap Value.bool?))
  | .maxBoolean => orElse .null .bool (last? compare (values.filterMap Value.bool?))
  | .collect => .list values
  | .distinctCollect => .list (distinct values)
  | .custom _ apply => apply facts

end Accumulator

end RuleEngine
