import RuleEngine.Engine.Firing

/-! Runs of an engine. Tasks are taken from the agenda one after the other; a task for an asserted
fact fires at most one activation, and a task for a fact that is gone takes back what rested on
it. A run that may fire no more stops before the activation that would be fired next, and the next
run begins there.
-/

namespace RuleEngine

structure RunSummary where
  tasks : Nat := 0
  fired : Nat := 0
  failed : Nat := 0
deriving DecidableEq

def RunSummary.countTask (s : RunSummary) : RunSummary := { s with tasks := s.tasks + 1 }

def RunSummary.countFired (s : RunSummary) (f : Fired) : RunSummary :=
  ⟨s.tasks + 1, s.fired + 1, if f.failure.isSome then s.failed + 1 else s.failed⟩

structure Run where
  summary : RunSummary := {}
  halted : Bool := false

/-- How far a run gets in one go. -/
inductive Progress where
  | fired (f : Fired)
  /-- The limit stops the run. -/
  | halted (failure : Failure)
  | idle

/-- What a run to the end comes to. -/
structure Report where
  fired : List Fired
  outcome : Except Failure RunSummary

namespace Engine

variable {ν : Type}

/-- The matches of all rules, by rule and within a rule in the order of the join. -/
def findActivations : List (Rule ν) → EngineM ν (List (Activation ν))
  | [] => return []
  | r :: rest => do
    let found ← matchesFor r.id r.conditions .empty none
    let more ← findActivations rest
    return found.map (fun m => ⟨r, m.bindings, m.consumed⟩) ++ more

/-- Fires the selected activation, or if it may not be fired puts its task back. -/
def fireSelected (t : Task) (a : Activation ν) (mayFire : Bool)
    : EngineM ν (Except Failure (Option Fired)) := do
  EngineM.emit (.activationSelected a.rule.id a.bindings)
  if ← guardsPass a then
    if mayFire then return .ok (some (← fire a))
    else
      let failure := Failure.limit ((← EngineM.get).config.maxActivations.getD 0)
      EngineM.emit (.engineError (some a.rule.id) failure)
      EngineM.modify fun e => { e with agenda := e.agenda.putBack t }
      return .error failure
  else return .ok none

/-- Deals with a task that was taken from the agenda. -/
def process (t : Task) (mayFire : Bool) : EngineM ν (Except Failure (Option Fired)) := do
  match t.change with
  | .retracted =>
    maintainSupport t.fact.id
    return .ok none
  | .asserted =>
    let candidates ← findActivations (← EngineM.get).rules
    EngineM.emit (.activationsFound t.fact.id candidates.length)
    match Activation.resolve candidates with
    | none => return .ok none
    | some a => fireSelected t a mayFire

/-- Whether a run may fire another activation. -/
def mayFire (c : Config) (s : RunSummary) : Bool := c.maxActivations.all (s.fired < ·)

/-- Deals with tasks up to one that fires an activation, at most with as many as `most`. -/
def advance (most : Nat) (r : Run) : EngineM ν (Progress × Run) :=
  match most with
  | 0 => return (.idle, r)
  | most + 1 => do
    let e ← EngineM.get
    match e.agenda.next? with
    | none => return (.idle, r)
    | some (t, agenda) =>
      EngineM.modify ({ · with agenda })
      match ← process t (mayFire e.config r.summary) with
      | .error failure => return (.halted failure, { r with halted := true })
      | .ok none => advance most { r with summary := r.summary.countTask }
      | .ok (some f) => return (.fired f, { r with summary := r.summary.countFired f })

/-- Goes on with a run up to the next firing. A task that fires nothing leaves one fact or one
task fewer, which bounds the number of tasks.
-/
def next (r : Run) : EngineM ν (Progress × Run) := do
  if r.halted then return (.idle, r)
  else
    let e ← EngineM.get
    advance (e.store.size + e.agenda.size + 1) r

/-- Goes on with a run for some number of steps, and gives what each step came to. A run that
has nothing left to do takes no more.
-/
def take (r : Run) : Nat → EngineM ν (List Progress × Run)
  | 0 => return ([], r)
  | n + 1 => do
    match ← next r with
    | (.idle, r) => return ([], r)
    | (progress, r) =>
      let (more, r) ← take r n
      return (progress :: more, r)

/-- Goes on with a run to its end. There is no report if the run fires as many activations as
`patience`, because rules can keep each other busy without end.
-/
def complete (patience : Nat) (r : Run) : EngineM ν (Option Report) :=
  match patience with
  | 0 => return none
  | patience + 1 => do
    match ← next r with
    | (.idle, r) => return some ⟨[], .ok r.summary⟩
    | (.halted failure, _) => return some ⟨[], .error failure⟩
    | (.fired f, r) =>
      return (← complete patience r).map fun report => { report with fired := f :: report.fired }

/-- Runs until the agenda is empty or the limit is reached. -/
def run (patience : Nat) : EngineM ν (Option Report) := complete patience {}

end Engine

end RuleEngine
