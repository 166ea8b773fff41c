import RuleEngine.Engine.Basic
import RuleEngine.Join

/-! Queries of an engine. They change nothing and report their course. -/

namespace RuleEngine

namespace Engine

variable {ν : Type}

/-- Reports what becomes of a join for a definition: the guards that could not be evaluated, and the
matches that never come to an end.
-/
def reportFaults (definition : String) : List JoinStep → EngineM ν Unit
  | [] => return ()
  | .found _ :: rest => reportFaults definition rest
  | .fault guard failure :: rest => do
    EngineM.emit (.guardError definition guard.text failure)
    reportFaults definition rest
  | .endless :: rest => do
    EngineM.endless
    reportFaults definition rest

/-- The matches of conditions for a definition, up to the one with which a limit is reached. -/
def matchesFor (definition : String) (conditions : List Condition) (b : Bindings)
    (limit : Option Nat)
    : EngineM ν (List Match) := do
  let steps := Join.steps (← EngineM.get).store.factsOfKind conditions b
  let steps := Join.upTo limit steps
  reportFaults definition steps
  return Join.found steps

/-- The value of a field of a row. A variable must be bound; deeper in an expression it need not
be.
-/
def projectField (field : String) (e : Expr) (b : Bindings) : Except Failure Value :=
  match e with
  | .var name =>
    if b.contains name then e.evaluateLenient b
    else .error (.projection field ("unbound variable " ++ name))
  | e => e.evaluateLenient b

/-- The row of a match. A field that cannot be computed is reported and is undefined. -/
def project (query : String) (b : Bindings) : List (String × Expr) → Record → EngineM ν Record
  | [], row => return row
  | (field, e) :: rest, row => do
    match projectField field e b with
    | .ok v => project query b rest (row.insert field v)
    | .error failure =>
      EngineM.emit (.projectionError query field failure)
      project query b rest (row.insert field .undefined)

def projectAll (q : Query) : List Match → EngineM ν (List Record)
  | [] => return []
  | m :: rest => do
    let row ← match q.projection with
      | none => pure m.bindings.userVariables
      | some fields => project q.id m.bindings fields .empty
    let rows ← projectAll q rest
    return row :: rows

/-- Runs a query. A streaming query may stop once it has so many matches. -/
def runQuery (id : String) (params : Bindings) (stopAfter : Option Nat)
    : EngineM ν (Except Failure (List Record)) := do
  match (← EngineM.get).query? id with
  | none =>
    EngineM.emit (.engineError (some id) (.unknownDefinition id))
    return .error (.unknownDefinition id)
  | some q =>
    EngineM.emit (.queryStarted q.id)
    let limit := stopAfter.filter fun _ => q.isStreaming
    let found ← matchesFor q.id q.conditions params limit
    let rows := q.shape (← projectAll q found)
    EngineM.emit (.queryCompleted q.id rows.length)
    return .ok rows

def query (id : String) (params : Bindings) : EngineM ν (Except Failure (List Record)) :=
  runQuery id params none

def queryFirst (id : String) (params : Bindings) : EngineM ν (Except Failure (Option Record)) :=
  return (← runQuery id params (some 1)).map (·.head?)

def queryExists (id : String) (params : Bindings) : EngineM ν (Except Failure Bool) :=
  return (← queryFirst id params).map (·.isSome)

def queryCount (id : String) (params : Bindings) : EngineM ν (Except Failure Nat) :=
  return (← query id params).map (·.length)

end Engine

end RuleEngine
