import RuleEngine.Engine.Definitions
import RuleEngine.Engine.Queries
import RuleEngine.Engine.Support

/-! The firing of an activation: its guards, its action between the hooks of its rule, the handlers
of failures, and the conditions that are looked at afterwards.
-/

namespace RuleEngine

structure Fired where
  id : ActivationId
  rule : String
  bindings : Bindings
  /-- The facts of the pattern conditions, in the order of the conditions. -/
  consumed : List FactId
  /-- The failure that was left in the end. -/
  failure : Option Failure

def Request.perform {ν : Type} (c : Context)
    : {k : ReplyKind} → Request ν k → EngineM ν (k.Reply ν)
  | _, .assert r => Engine.insert r .stated
  | _, .assertLogical r => Engine.insert r (.logical c.activation)
  | _, .retract id => Engine.retract id
  | _, .modify id changes => Engine.modify id changes
  | _, .update id r => Engine.update id r
  | _, .retractMatching kind p => Engine.retractMatching kind p
  | _, .addRule r => Engine.define (.rule r)
  | _, .addQuery q => Engine.define (.query q)
  | _, .removeDefinition id => Engine.undefine id
  | _, .query id params stopAfter => Engine.runQuery id params stopAfter
  | _, .look => return (← EngineM.get).view

/-- Runs a program to its end, and gives its failure if it fails. `proceed` is what the program
lets run where it proceeds.
-/
def Program.run {ν : Type} (c : Context) (proceed : EngineM ν (Option Failure))
    : {wrapping : Bool} → Program ν wrapping → EngineM ν (Option Failure)
  | _, .done => return none
  | _, .fail failure => return some failure
  | _, .note n next => do
    EngineM.note n
    next.run c proceed
  | _, .ask request next => do
    let reply ← request.perform c
    (next reply).run c proceed
  | _, .proceed next => do
    let failure ← proceed
    (next failure).run c proceed

/-- Runs a program that does not wrap anything. -/
def Program.execute {ν : Type} (c : Context) (p : Program ν false) : EngineM ν (Option Failure) :=
  p.run c (return none)

namespace Engine

variable {ν : Type}

/-- Puts the guards of a rule to the bindings of the selected activation, up to the first that is
not true.
-/
def guardsPass (a : Activation ν) : EngineM ν Bool := do
  match checkGuards a.bindings a.rule.guards with
  | .passed =>
    EngineM.emit (.preConditionPassed a.rule.id)
    return true
  | .failed =>
    EngineM.emit (.preConditionFailed a.rule.id none)
    return false
  | .fault guard failure =>
    EngineM.emit (.guardError a.rule.id guard.text failure)
    EngineM.emit (.preConditionFailed a.rule.id (some failure))
    return false

/-- Looks at the conditions of a rule after its action, and reports those that nothing meets. -/
def checkPostConditions (c : Context) : Nat → List Condition → EngineM ν Unit
  | _, [] => return ()
  | index, condition :: rest => do
    if (← matchesFor c.rule [condition] c.bindings (some 1)).isEmpty then
      EngineM.emit (.postConditionFailed c.rule index)
    checkPostConditions c (index + 1) rest

/-- Runs the action of a rule. A failure goes to the handler for its name, if there is one, and
what the handler does is the outcome.
-/
def act (r : Rule ν) (c : Context) : EngineM ν (Option Failure) := do
  match ← (r.action c).execute c with
  | none => return none
  | some failure =>
    match r.handler? failure.name with
    | none => return some failure
    | some handler =>
      EngineM.emit (.actionErrorHandled r.id failure)
      (handler c failure).execute c

/-- Runs the action, and looks at the conditions for afterwards unless it failed. -/
def proceed (r : Rule ν) (c : Context) : EngineM ν (Option Failure) := do
  let outcome ← act r c
  if outcome.isNone then checkPostConditions c 0 r.postConditions
  return outcome

def wrapped (r : Rule ν) (c : Context) : EngineM ν (Option Failure) :=
  match r.around with
  | none => proceed r c
  | some around => (around c).run c (proceed r c)

/-- Runs the last hook of a rule, whose own failure is only reported. -/
def runAfter (r : Rule ν) (c : Context) (outcome : Option Failure) : EngineM ν Unit := do
  match r.after with
  | none => return ()
  | some after =>
    if let some failure := ← (after c outcome).execute c then
      EngineM.emit (.hookError r.id "after" failure)

/-- Runs the action of a rule within its hooks, and reports the failure that is left. -/
def runBody (r : Rule ν) (c : Context) : EngineM ν (Option Failure) := do
  let outcome ← wrapped r c
  runAfter r c outcome
  if let some failure := outcome then EngineM.emit (.engineError (some r.id) failure)
  return outcome

/-- Fires an activation, which is tracked as long as it may have to be taken back. -/
def fire (a : Activation ν) : EngineM ν Fired := do
  let id ← track a
  let outcome ← runBody a.rule ⟨a.rule.id, id, a.bindings⟩
  untrackIfIdle id
  EngineM.emit (.activationFired id a.rule.id outcome.isSome)
  return ⟨id, a.rule.id, a.bindings, a.consumed, outcome⟩

end Engine

end RuleEngine
