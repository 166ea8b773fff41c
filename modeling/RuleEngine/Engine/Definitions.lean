import RuleEngine.Engine.Basic
import RuleEngine.Text.Blank

/-! Definitions of an engine. They keep their place when they are replaced. -/

namespace RuleEngine

namespace Engine

variable {ν : Type}

/-- Sets a definition in place of the one with its identity, or behind all others. -/
def setDefinition (d : Definition ν) : List (Definition ν) → List (Definition ν)
  | [] => [d]
  | d' :: rest => if d'.id = d.id then d :: rest else d' :: setDefinition d rest

/-- Adds or replaces a definition, whose identity must not be blank. -/
def define (d : Definition ν) : EngineM ν (Except Failure Unit) := do
  if Text.isAllBlank d.id then
    let failure := Failure.definition (d.kind.text ++ " id must not be blank")
    EngineM.emit (.engineError none failure)
    return .error failure
  else
    let replaced := (← EngineM.get).definitions.any (·.id == d.id)
    EngineM.modify fun e => { e with definitions := setDefinition d e.definitions }
    EngineM.emit (.definitionAdded d.id d.kind replaced)
    return .ok ()

/-- Removes a definition, and tells whether there was one. -/
def undefine (id : String) : EngineM ν Bool := do
  match (← EngineM.get).definitions.find? (·.id == id) with
  | none => return false
  | some d =>
    EngineM.modify fun e => { e with definitions := e.definitions.eraseP (·.id == id) }
    EngineM.emit (.definitionRemoved id d.kind)
    return true

end Engine

end RuleEngine
