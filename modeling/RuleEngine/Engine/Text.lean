import RuleEngine.Engine.Running

/-! Engines and runs as structured text. -/

namespace RuleEngine

def Config.source (c : Config) : String :=
  Text.record "EngineConfig"
    [("max_activations", Text.optional (c.maxActivations.map toString)),
      ("trace_rules", Text.flag c.traceRules)]

/-- The engine inside structured text: its settings, and how much of everything it holds. -/
def Engine.source {ν : Type} (e : Engine ν) : String :=
  Text.openRecord "Engine"
    [("config", e.config.source), ("facts", toString e.store.size),
      ("pending_tasks", toString e.agenda.size),
      ("definitions", Text.list (e.definitions.map fun d => Text.quoted d.id)),
      ("tracked_activations", toString e.tracked.length)]

def RunSummary.source (s : RunSummary) : String :=
  Text.record "RunSummary"
    [("tasks", toString s.tasks), ("fired", toString s.fired), ("failed", toString s.failed)]

def Run.source (r : Run) : String :=
  Text.openRecord "Activations" [("summary", r.summary.source), ("halted", Text.flag r.halted)]

end RuleEngine
