import RuleEngine.Trace.Buffer

/-! A tracer records the events that it observes while it is enabled. It numbers all of them, and
keeps those whose names it is asked for.
-/

namespace RuleEngine

structure TracerConfig where
  enabled : Bool := false
  capacity : Nat := 10000
  /-- Whether records are shown as JSON. -/
  json : Bool := false
  /-- The names of the events that are kept; without any, all are kept. -/
  kept : List String := []

def TracerConfig.keeps (c : TracerConfig) (e : Event) : Bool :=
  c.kept.isEmpty || c.kept.contains e.name

structure Tracer where
  config : TracerConfig
  buffer : TraceBuffer
  /-- The number of events observed so far. -/
  observed : Nat

namespace Tracer

def ofConfig (config : TracerConfig) : Tracer := ⟨config, .ofCapacity config.capacity, 0⟩

def disabled : Tracer := ofConfig {}

/-- Observes an event at a time, if the tracer is enabled. -/
def record (t : Tracer) (timestamp : Nat) (e : Event) : Tracer :=
  if t.config.enabled then
    let buffer := if t.config.keeps e then (t.buffer.push t.observed timestamp e).2 else t.buffer
    { t with buffer, observed := t.observed + 1 }
  else t

def setEnabled (t : Tracer) (enabled : Bool) : Tracer :=
  { t with config := { t.config with enabled } }

def setJson (t : Tracer) (json : Bool) : Tracer := { t with config := { t.config with json } }

def clear (t : Tracer) : Tracer := { t with buffer := t.buffer.clear }

def style : TraceRecord.LineStyle := { timestamps := true }

def showRecord (t : Tracer) (r : TraceRecord) : String :=
  if t.config.json then r.json else r.line style

def dump (t : Tracer) : String :=
  if t.config.json then TraceRecord.jsonArray false t.buffer.records
  else TraceRecord.lines style t.buffer.records

end Tracer

end RuleEngine
