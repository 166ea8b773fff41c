import RuleEngine.Engine.Running
import RuleEngine.Event.Notifier

/-! An engine under observation: what an operation publishes reaches the listeners, and what they
note stands between the notes of programs, in the order in which all of it arose.
-/

namespace RuleEngine

structure Observed (ν : Type) where
  engine : Engine ν := {}
  notifier : Notifier ν := {}

namespace Observed

variable {ν α : Type}

/-- Passes output on, and gathers the notes. -/
def relay : List (Output ν) → Notifier ν → Notifier ν × List ν
  | [], n => (n, [])
  | .scheduled _ :: rest, n | .endless :: rest, n => relay rest n
  | .note x :: rest, n =>
    let (n, notes) := relay rest n
    (n, x :: notes)
  | .event e :: rest, n =>
    let (n, heard) := n.emit e
    let (n, notes) := relay rest n
    (n, heard ++ notes)

/-- Runs an operation, and gives the notes beside its result. -/
def perform (o : Observed ν) (m : EngineM ν α) : α × List ν × Observed ν :=
  let ran := m.run o.engine
  let (notifier, notes) := relay ran.output o.notifier
  (ran.result, notes, ⟨ran.engine, notifier⟩)

end Observed

end RuleEngine
