import RuleEngine.Engine.Facts

/-! The support of logical facts. A fired activation is tracked with the facts that it consumed
and those that it justifies. When a consumed fact goes, the activation goes, and the facts that it
justifies go with it. Conditions that count facts or ask for their absence consume nothing.
-/

namespace RuleEngine

namespace Engine

variable {ν : Type}

/-- Tracks an activation under a fresh identity. -/
def track (a : Activation ν) : EngineM ν ActivationId := do
  let id : ActivationId := ⟨(← EngineM.get).nextActivation⟩
  EngineM.modify fun e =>
    { e with
      nextActivation := e.nextActivation + 1
      tracked := e.tracked ++ [⟨id, a.rule.id, FactIds.ofList a.consumed, []⟩] }
  return id

/-- Tracks an activation no longer if it justifies nothing. -/
def untrackIfIdle (id : ActivationId) : EngineM ν Unit :=
  EngineM.modify fun e =>
    { e with tracked := e.tracked.filter fun t => !(t.id == id && t.produced.isEmpty) }

/-- Takes out a fact if an activation justifies it. -/
def retractJustified (activation : ActivationId) (fact : FactId) : EngineM ν Unit := do
  if ((← EngineM.get).store.entry? fact).any (·.isJustifiedBy activation) then
    if (← retract fact).isSome then EngineM.emit (.logicalRetracted fact activation)

/-- Takes out those of some facts that an activation justifies. -/
def retractAllJustified (activation : ActivationId) : FactIds → EngineM ν Unit
  | [] => return ()
  | fact :: rest => do
    retractJustified activation fact
    retractAllJustified activation rest

def takeBack (cause : FactId) (t : Tracked) : EngineM ν Unit := do
  EngineM.modify fun e => { e with tracked := e.tracked.filter (·.id != t.id) }
  EngineM.emit (.activationInvalidated t.id t.rule cause)
  retractAllJustified t.id t.produced

def takeBackAll (cause : FactId) : List Tracked → EngineM ν Unit
  | [] => return ()
  | t :: rest => do
    takeBack cause t
    takeBackAll cause rest

/-- Takes back the activations that consumed a fact that is gone. -/
def maintainSupport (gone : FactId) : EngineM ν Unit := do
  takeBackAll gone ((← EngineM.get).tracked.filter (·.consumed.contains gone))

/-- The activation that justifies a fact, if it is a logical one. -/
def justification? (e : Engine ν) (id : FactId) : Option Tracked :=
  (e.store.entry? id).bind fun entry =>
    entry.origin.activation?.bind fun activation => e.tracked.find? (·.id == activation)

end Engine

end RuleEngine
