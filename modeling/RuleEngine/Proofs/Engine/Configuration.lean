import RuleEngine.Proofs.Engine.Operations

/-! The configuration of an engine. Only the limit of a run looks at it: all that an engine does
otherwise, the bodies of rules included, it does alike under every configuration.
-/

namespace RuleEngine

namespace EngineM

variable {ν α β : Type}

/-- An operation does the same under every configuration, and keeps it. -/
def Indifferent (m : EngineM ν α) : Prop :=
  ∀ (e : Engine ν) (config : Config),
    m.run { e with config } = { m.run e with engine := { (m.run e).engine with config } }

namespace Indifferent

/-- The configuration is kept, since an operation is also indifferent to the one there is. -/
theorem config_run {m : EngineM ν α} (indifferent : m.Indifferent) (e : Engine ν)
    : (m.run e).engine.config = e.config :=
  congrArg (·.engine.config) (indifferent e e.config)

theorem pure (a : α) : (Pure.pure a : EngineM ν α).Indifferent := fun _ _ => rfl

theorem emit (event : Event) : (EngineM.emit event : EngineM ν Unit).Indifferent := fun _ _ => rfl

theorem endless : (EngineM.endless : EngineM ν Unit).Indifferent := fun _ _ => rfl

theorem note (n : ν) : (EngineM.note n).Indifferent := fun _ _ => rfl

theorem schedule (t : Task) : (EngineM.schedule t : EngineM ν Unit).Indifferent := fun _ _ => rfl

/-- A change of an engine that is made alike under every configuration. -/
theorem modify {g : Engine ν → Engine ν}
    (alike : ∀ e config, g { e with config } = { g e with config })
    : (EngineM.modify g).Indifferent := by
  intro e config
  rw [run_modify, run_modify, alike]

theorem bind {m : EngineM ν α} {f : α → EngineM ν β} (first : m.Indifferent)
    (rest : ∀ a, (f a).Indifferent)
    : (m >>= f).Indifferent := by
  intro e config
  rw [run_bind, run_bind, first e config, rest]

/-- Looking at an engine, but not at its configuration. -/
theorem look {f : Engine ν → EngineM ν β} (rest : ∀ e, (f e).Indifferent)
    (alike : ∀ e config, f { e with config } = f e)
    : (EngineM.get >>= f).Indifferent := by
  intro e config
  have looked := rest e e config
  rw [← alike e config] at looked
  rw [run_bind, run_bind, run_get, run_get, looked, alike]

theorem storeFact (r : Record) (origin : Origin)
    : (Engine.storeFact r origin : EngineM ν (Except Failure Fact)).Indifferent := by
  refine .look (fun e => ?_) fun _ _ => rfl
  cases e.store.assert r origin with
  | error failure => exact .pure _
  | ok stored =>
    exact .bind (.modify fun _ _ => rfl) fun _ => .bind (.emit _) fun _ =>
      .bind (.schedule _) fun _ => .pure _

theorem retract (id : FactId)
    : (Engine.retract id : EngineM ν (Option Fact)).Indifferent := by
  refine .look (fun e => ?_) fun _ _ => rfl
  cases e.store.retract? id with
  | none => exact .pure _
  | some taken =>
    exact .bind (.modify fun _ _ => rfl) fun _ => .bind (.emit _) fun _ =>
      .bind (.schedule _) fun _ => .pure _

theorem define (d : Definition ν) : (Engine.define d).Indifferent := by
  unfold Engine.define
  split
  · exact .bind (.emit _) fun _ => .pure _
  · refine .look (fun _ => ?_) fun _ _ => rfl
    exact .bind (.modify fun _ _ => rfl) fun _ => .bind (.emit _) fun _ => .pure _

theorem undefine (id : String) : (Engine.undefine id : EngineM ν Bool).Indifferent := by
  refine .look (fun e => ?_) fun _ _ => rfl
  cases e.definitions.find? (·.id == id) with
  | none => exact .pure _
  | some d => exact .bind (.modify fun _ _ => rfl) fun _ => .bind (.emit _) fun _ => .pure _

theorem reading : HoldsOfReading fun α (m : EngineM ν α) => m.Indifferent where
  pure := .pure
  bind := .bind
  look := .look
  report _ := .emit _
  endless := .endless

/-- Everything that dealing with a task is made of is indifferent. -/
theorem working : HoldsOfWorking fun α (m : EngineM ν α) => m.Indifferent where
  toHoldsOfReading := reading
  withdrawal _ := .emit _
  tracked _ := .modify fun _ _ => rfl
  retract := retract
  course _ := .emit _
  issued _ := .modify fun _ _ => rfl
  editing _ := {
    toHoldsOfReading := reading
    note := .note
    registry := fun _ => .modify fun _ _ => rfl
    store := fun r origin _ => storeFact r origin
    retract := retract
    define := define
    undefine := undefine
  }

end Indifferent

end EngineM

end RuleEngine
