import RuleEngine.Engine.Basic
import RuleEngine.Join

/-! Changes of the facts of an engine. A record is validated before anything changes, so a change
that fails leaves the facts as they were.
-/

namespace RuleEngine

namespace Engine

variable {ν : Type}

/-- Validates a record, which must name a kind. -/
def validateIn (g : Registry) (r : Record) : Except Failure Record × Registry :=
  match Store.kindOf? r with
  | none => (.error .missingKind, g)
  | some _ => g.validate r

/-- Validates a record and fills in defaults. A failure is reported. -/
def validate (r : Record) : EngineM ν (Except Failure Record) := do
  let (result, registry) := validateIn (← EngineM.get).registry r
  EngineM.modify ({ · with registry })
  if let .error failure := result then EngineM.emit (.schemaError failure)
  return result

def noteProduced (id : ActivationId) (fact : FactId) (tracked : List Tracked) : List Tracked :=
  tracked.map fun t => if t.id = id then { t with produced := t.produced.insert fact } else t

/-- Notes a stored fact with the activation that justifies it, if one does. -/
def noteOrigin (origin : Origin) (fact : FactId) (tracked : List Tracked) : List Tracked :=
  match origin with
  | .stated => tracked
  | .logical id => noteProduced id fact tracked

/-- Stores a record as a fact and puts the fact on the agenda. -/
def storeFact (r : Record) (origin : Origin) : EngineM ν (Except Failure Fact) := do
  match (← EngineM.get).store.assert r origin with
  | .error failure => return .error failure
  | .ok (entry, store) =>
    EngineM.modify fun e => { e with store, tracked := noteOrigin origin entry.id e.tracked }
    EngineM.emit (.factAsserted entry.fact origin.isLogical origin.activation?)
    EngineM.schedule ⟨.asserted, entry.fact⟩
    return .ok entry.fact

/-- Takes a fact out and puts it on the agenda as gone. -/
def retract (id : FactId) : EngineM ν (Option Fact) := do
  match (← EngineM.get).store.retract? id with
  | none => return none
  | some (entry, store) =>
    EngineM.modify ({ · with store })
    EngineM.emit (.factRetracted entry.fact)
    EngineM.schedule ⟨.retracted, entry.fact⟩
    return some entry.fact

def insert (r : Record) (origin : Origin) : EngineM ν (Except Failure Fact) := do
  match ← validate r with
  | .error failure => return .error failure
  | .ok r => storeFact r origin

def assert (r : Record) : EngineM ν (Except Failure Fact) := insert r .stated

/-- Puts a stated fact in the place of another, under an identity of its own. -/
def replace (id : FactId) (r : Record) : EngineM ν (Except Failure Fact) := do
  match ← validate r with
  | .error failure => return .error failure
  | .ok r =>
    let _ ← retract id
    storeFact r .stated

/-- Replaces a fact by one in which some fields are changed. -/
def modify (id : FactId) (changes : Record) : EngineM ν (Except Failure Fact) := do
  match (← EngineM.get).store.fact? id with
  | none => return .error (.factNotFound id)
  | some fact => replace id (fact.fields.overlay changes)

/-- Replaces a fact by a record, which keeps the kind of the fact if it names none. -/
def update (id : FactId) (r : Record) : EngineM ν (Except Failure Fact) := do
  match (← EngineM.get).store.fact? id with
  | none => return .error (.factNotFound id)
  | some fact =>
    replace id
      (if r.contains Fact.kindField then r else r.insert Fact.kindField (.string fact.kind))

/-- Takes out the facts with some identities, and gives those that there were. -/
def retractAll : List FactId → EngineM ν (List Fact)
  | [] => return []
  | id :: ids => do
    let fact ← retract id
    let facts ← retractAll ids
    return fact.toList ++ facts

/-- Takes out the facts of a kind that match a pattern. -/
def retractMatching (kind : String) (p : Pattern) : EngineM ν (List Fact) := do
  let facts := (← EngineM.get).store.factsOfKind kind
  EngineM.endlessIf (facts.any fun f => (p.match? (.fact f) .empty).isNone)
  retractAll ((facts.filter (p.accepts · .empty)).map (·.id))

end Engine

end RuleEngine
