import RuleEngine.Trace.Document

/-! Trace records, and their texts for readers and for programs. -/

namespace RuleEngine

structure TraceRecord where
  id : Nat
  /-- The number of events that were observed before this one, whether kept or not. -/
  sequence : Nat
  /-- Nanoseconds since recording began. -/
  timestamp : Nat
  event : Event

/-- The rule or the query that an event is about. -/
def Event.definition? : Event → Option String
  | definitionAdded id _ _ => some id
  | definitionRemoved id _ => some id
  | activationSelected rule _ => some rule
  | preConditionPassed rule => some rule
  | preConditionFailed rule _ => some rule
  | activationFired _ rule _ => some rule
  | actionErrorHandled rule _ => some rule
  | postConditionFailed rule _ => some rule
  | hookError rule _ _ => some rule
  | activationInvalidated _ rule _ => some rule
  | guardError definition _ _ => some definition
  | engineError definition _ => definition
  | projectionError query _ _ => some query
  | queryStarted query => some query
  | queryCompleted query _ => some query
  | factAsserted .. | factRetracted .. | schemaError .. | activationsFound ..
  | logicalRetracted .. => none

namespace TraceRecord

def name (r : TraceRecord) : String := r.event.name

def isError (r : TraceRecord) : Bool := r.event.isError

def definition? (r : TraceRecord) : Option String := r.event.definition?

-- --------------------------------------------------------------------------------------
-- Lines
-- --------------------------------------------------------------------------------------

structure LineStyle where
  timestamps : Bool := false
  ids : Bool := false

/-- A time span in microseconds, or from a thousand of them on in a larger unit with three
places.
-/
def spanText (nanoseconds : Nat) : String :=
  let micros := nanoseconds / 1000
  if 1000000 ≤ micros then (Number.ofNat micros / .ofNat 1000000).fixed 3 ++ "s"
  else if 1000 ≤ micros then (Number.ofNat micros / .ofNat 1000).fixed 3 ++ "ms"
  else toString micros ++ "us"

def alignedRight (width : Nat) (s : String) : String :=
  String.ofList (List.replicate (width - s.length) ' ') ++ s

/-- Events inside the work on a task stand further to the right than those outside. -/
def indent : Event → String
  | .definitionAdded .. | .definitionRemoved .. | .factAsserted .. | .factRetracted ..
  | .queryStarted .. | .queryCompleted .. => ""
  | _ => "  "

def line (style : LineStyle) (r : TraceRecord) : String :=
  (if style.ids then "[" ++ Text.zeroPadded 6 r.id ++ "] " else "") ++
    "S" ++ Text.zeroPadded 5 r.sequence ++ " " ++
    (if style.timestamps then alignedRight 10 (spanText r.timestamp) ++ " " else "") ++
    (if r.isError then "!!" else "  ") ++ " " ++ indent r.event ++ r.event.text

def lines (style : LineStyle) (rs : List TraceRecord) : String :=
  "\n".intercalate (rs.map (line style))

-- --------------------------------------------------------------------------------------
-- JSON
-- --------------------------------------------------------------------------------------

def document (r : TraceRecord) : Json :=
  .object ([("id", .nat r.id), ("sequence", .nat r.sequence), ("timestamp_ns", .nat r.timestamp),
    ("type", .string r.name), ("is_error", .bool r.isError)] ++ r.event.members)

def json (r : TraceRecord) : String := r.document.text

/-- Records as a JSON array, if `pretty` with each record in a line of its own. -/
def jsonArray (pretty : Bool) (rs : List TraceRecord) : String :=
  if pretty then "[\n  " ++ ",\n  ".intercalate (rs.map json) ++ "\n]"
  else "[" ++ ",".intercalate (rs.map json) ++ "]"

end TraceRecord

end RuleEngine
