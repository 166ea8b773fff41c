import RuleEngine.Event.Basic
import RuleEngine.Rule.Activation

/-! The engine: its state, and the operations on it. An operation returns a result, leaves an
engine, and puts out events, the notes of programs and the tasks that it schedules, in the order
in which they arose. Where it is caught in a match that never comes to an end it puts out that it
is; its result, its engine and what it puts out behind that are then what would follow if the match
failed.
-/

namespace RuleEngine

structure Config where
  maxActivations : Option Nat := none
  traceRules : Bool := false
deriving DecidableEq

inductive Definition (ν : Type) where
  | rule (r : Rule ν)
  | query (q : Query)

namespace Definition

variable {ν : Type}

def id : Definition ν → String
  | rule r => r.id
  | query q => q.id

def kind : Definition ν → DefinitionKind
  | rule _ => .rule
  | query _ => .query

def rule? : Definition ν → Option (Rule ν)
  | rule r => some r
  | query _ => none

def query? : Definition ν → Option Query
  | rule _ => none
  | query q => some q

def shown : Definition ν → Shown
  | rule r => .rule r.outline
  | query q => .query q

end Definition

structure Engine (ν : Type) where
  config : Config := {}
  store : Store := {}
  registry : Registry := {}
  agenda : Agenda := {}
  /-- The rules and queries, at most one for an identity. -/
  definitions : List (Definition ν) := []
  /-- The tracked activations in the order of their identities. -/
  tracked : List Tracked := []
  nextActivation : Nat := 1
  /-- What the bodies of rules have noted, from the first note on: all that they remember. -/
  notes : List ν := []

inductive Output (ν : Type) where
  | event (e : Event)
  | note (n : ν)
  /-- A task was appended to the agenda. -/
  | scheduled (t : Task)
  /-- A match of a pattern never comes to an end, and nothing that follows happens. -/
  | endless

def Output.isEndless {ν : Type} : Output ν → Bool
  | endless => true
  | event _ | note _ | scheduled _ => false

/-- What comes of an operation. -/
structure Ran (ν α : Type) where
  result : α
  engine : Engine ν
  output : List (Output ν) := []

/-- An operation comes to its end. Otherwise what it has put out up to the first match without an
end is all that there ever is of it.
-/
def Ran.Returns {ν α : Type} (ran : Ran ν α) : Prop := ∀ o ∈ ran.output, o.isEndless = false

instance {ν α : Type} (ran : Ran ν α) : Decidable ran.Returns :=
  inferInstanceAs (Decidable (∀ o ∈ ran.output, o.isEndless = false))

def EngineM (ν α : Type) := Engine ν → Ran ν α

namespace EngineM

variable {ν α β : Type}

def run (m : EngineM ν α) (e : Engine ν) : Ran ν α := m e

instance : Monad (EngineM ν) where
  pure a := fun e => ⟨a, e, []⟩
  bind m f := fun e =>
    let first := m e
    let second := f first.result first.engine
    ⟨second.result, second.engine, first.output ++ second.output⟩

def get : EngineM ν (Engine ν) := fun e => ⟨e, e, []⟩

def modify (f : Engine ν → Engine ν) : EngineM ν Unit := fun e => ⟨(), f e, []⟩

def put (o : Output ν) : EngineM ν Unit := fun e => ⟨(), e, [o]⟩

def emit (e : Event) : EngineM ν Unit := put (.event e)

def endless : EngineM ν Unit := put .endless

def endlessIf (caught : Bool) : EngineM ν Unit := if caught then endless else pure ()

/-- Puts out a note, which is remembered. -/
def note (n : ν) : EngineM ν Unit := fun e => ⟨(), { e with notes := e.notes ++ [n] }, [.note n]⟩

def schedule (t : Task) : EngineM ν Unit := fun e =>
  ⟨(), { e with agenda := e.agenda.push t }, [.scheduled t]⟩

variable (e : Engine ν)

@[simp]
theorem run_pure (a : α) : (pure a : EngineM ν α).run e = ⟨a, e, []⟩ := rfl

/-- The second operation goes on where the first left the engine. -/
@[simp]
theorem run_bind (m : EngineM ν α) (f : α → EngineM ν β)
    : (m >>= f).run e
      = ⟨((f (m.run e).result).run (m.run e).engine).result,
          ((f (m.run e).result).run (m.run e).engine).engine,
          (m.run e).output ++ ((f (m.run e).result).run (m.run e).engine).output⟩ :=
  rfl

@[simp]
theorem run_get : (get : EngineM ν (Engine ν)).run e = ⟨e, e, []⟩ := rfl

@[simp]
theorem run_modify (f : Engine ν → Engine ν) : (modify f).run e = ⟨(), f e, []⟩ := rfl

@[simp]
theorem run_emit (event : Event) : (emit event : EngineM ν Unit).run e = ⟨(), e, [.event event]⟩ :=
  rfl

@[simp]
theorem run_endless : (endless : EngineM ν Unit).run e = ⟨(), e, [.endless]⟩ := rfl

@[simp]
theorem run_endlessIf (caught : Bool)
    : (endlessIf caught : EngineM ν Unit).run e = ⟨(), e, if caught then [.endless] else []⟩ := by
  cases caught <;> rfl

@[simp]
theorem run_note (n : ν)
    : (note n).run e = ⟨(), { e with notes := e.notes ++ [n] }, [.note n]⟩ :=
  rfl

@[simp]
theorem run_schedule (t : Task)
    : (schedule t : EngineM ν Unit).run e
      = ⟨(), { e with agenda := e.agenda.push t }, [.scheduled t]⟩ :=
  rfl

theorem returns_pure (a : α) : ((pure a : EngineM ν α).run e).Returns := nofun

theorem returns_look (f : Engine ν → EngineM ν β)
    : ((get >>= f).run e).Returns ↔ ((f e).run e).Returns :=
  .rfl

/-- Two operations one after the other come to their end if each of them does. -/
theorem returns_bind (m : EngineM ν α) (f : α → EngineM ν β)
    : ((m >>= f).run e).Returns
      ↔ (m.run e).Returns ∧ ((f (m.run e).result).run (m.run e).engine).Returns :=
  List.forall_mem_append

theorem returns_emit (event : Event) : ((emit event : EngineM ν Unit).run e).Returns :=
  fun _ member => List.mem_singleton.mp member ▸ rfl

theorem not_returns_endless : ¬((endless : EngineM ν Unit).run e).Returns :=
  fun returns => Bool.noConfusion (returns .endless (List.mem_singleton_self _))

end EngineM

namespace Engine

variable {ν : Type}

def ofConfig (config : Config) : Engine ν := { config }

def rules (e : Engine ν) : List (Rule ν) := e.definitions.filterMap (·.rule?)

def rule? (e : Engine ν) (id : String) : Option (Rule ν) := e.rules.find? (·.id == id)

def query? (e : Engine ν) (id : String) : Option Query :=
  (e.definitions.filterMap (·.query?)).find? (·.id == id)

/-- Forgets facts, tasks and activations. Definitions and schemas stay, and so does what bodies
remember; identities begin anew.
-/
def reset (e : Engine ν) : Engine ν :=
  { e with store := {}, agenda := {}, tracked := [], nextActivation := 1 }

def register (e : Engine ν) (s : Schema) : Engine ν :=
  { e with registry := e.registry.register s }

def view (e : Engine ν) : View ν where
  store := e.store
  registry := e.registry
  agenda := e.agenda
  definitions := e.definitions.map (·.shown)
  tracked := e.tracked
  notes := e.notes

end Engine

end RuleEngine
