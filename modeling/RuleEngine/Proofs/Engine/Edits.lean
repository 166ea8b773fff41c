import RuleEngine.Proofs.Engine.Operations

/-! Elementary changes of an engine. Whatever is done to an engine from outside or by the body of a
rule is a sequence of a few kinds of edits, each with what it puts out. What edits keep is thereby
kept by every rule body, however it asks, fails and handles failures.
-/

namespace RuleEngine

/-- Events that are reports, and being caught in a match. -/
def Output.isReport {ν : Type} : Output ν → Bool
  | event e => e.isReport
  | endless => true
  | note _ | scheduled _ => false

/-- An elementary change of an engine with its output. A fact is stated, or justified by the
activation `author`.
-/
inductive Edit {ν : Type} (author : Option ActivationId)
    : Engine ν → List (Output ν) → Engine ν → Prop where
  | report {o : Output ν} (e : Engine ν) (harmless : o.isReport) : Edit author e [o] e
  | note (e : Engine ν) (n : ν) : Edit author e [.note n] { e with notes := e.notes ++ [n] }
  | registry (e : Engine ν) (registry : Registry) : Edit author e [] { e with registry }
  | define (e : Engine ν) (d : Definition ν)
    : Edit author e [] { e with definitions := Engine.setDefinition d e.definitions }
  | undefine (e : Engine ν) (id : String)
    : Edit author e [] { e with definitions := e.definitions.eraseP (·.id == id) }
  | assert {e : Engine ν} {r : Record} {origin : Origin} {entry : Entry} {store : Store}
    (asserted : e.store.assert r origin = .ok (entry, store))
    (justified : ∀ id, origin = .logical id → author = some id)
    : Edit author e
        [.event (.factAsserted entry.fact origin.isLogical origin.activation?),
          .scheduled ⟨.asserted, entry.fact⟩]
        { e with
          store
          tracked := Engine.noteOrigin origin entry.id e.tracked
          agenda := e.agenda.push ⟨.asserted, entry.fact⟩ }
  | retract {e : Engine ν} {id : FactId} {entry : Entry} {store : Store}
    (retracted : e.store.retract? id = some (entry, store))
    : Edit author e [.event (.factRetracted entry.fact), .scheduled ⟨.retracted, entry.fact⟩]
        { e with store, agenda := e.agenda.push ⟨.retracted, entry.fact⟩ }

/-- A sequence of edits with their joint output. -/
inductive Edits {ν : Type} (author : Option ActivationId)
    : Engine ν → List (Output ν) → Engine ν → Prop where
  | none (e : Engine ν) : Edits author e [] e
  | cons {e e' e'' : Engine ν} {out more : List (Output ν)} (first : Edit author e out e')
    (rest : Edits author e' more e'') : Edits author e (out ++ more) e''

/-- A relation between an engine, what is put out and the engine afterwards composes if it holds of
doing nothing, and of two things done one after the other if it holds of each.
-/
structure Composes {ν : Type} (R : Engine ν → List (Output ν) → Engine ν → Prop) : Prop where
  refl : ∀ e, R e [] e
  trans : ∀ {e e' e'' out more}, R e out e' → R e' more e'' → R e (out ++ more) e''

namespace Edits

variable {ν : Type} {author : Option ActivationId}

/-- A single edit, by an empty rest. -/
theorem single {e e' : Engine ν} {out : List (Output ν)} (edit : Edit author e out e')
    : Edits author e out e' := by
  simpa using cons edit (.none e')

/-- Edits compose, by induction on the first sequence. -/
theorem composes : Composes (Edits (ν := ν) author) where
  refl := .none
  trans first rest := by
    induction first with
    | none => exact rest
    | cons edit _ ih =>
      rw [List.append_assoc]
      exact .cons edit (ih rest)

/-- What composes and holds of every edit holds of every sequence of edits, by induction. -/
theorem lift {R : Engine ν → List (Output ν) → Engine ν → Prop} (composes : Composes R)
    (edit : ∀ {e out e'}, Edit author e out e' → R e out e') {e e' : Engine ν}
    {out : List (Output ν)} (edits : Edits author e out e')
    : R e out e' := by
  induction edits with
  | none e => exact composes.refl e
  | cons first _ ih => exact composes.trans (edit first) ih

/-- What holds of an engine before every edit and then after it holds after every sequence. -/
theorem invariant {P : Engine ν → Prop} (edit : ∀ {e out e'}, Edit author e out e' → P e → P e')
    {e e' : Engine ν} {out : List (Output ν)} (edits : Edits author e out e') (holds : P e)
    : P e' :=
  edits.lift (R := fun e _ e' => P e → P e') ⟨fun _ => id, fun first rest => rest ∘ first⟩ edit
    holds

end Edits

-- --------------------------------------------------------------------------------------
-- Operations that only edit
-- --------------------------------------------------------------------------------------

namespace EngineM

variable {ν α β : Type} {author : Option ActivationId}

/-- A relation holds of every course that an operation takes. -/
def Obeys (R : Engine ν → List (Output ν) → Engine ν → Prop) (m : EngineM ν α) : Prop :=
  ∀ e, R e (m.run e).output (m.run e).engine

theorem Obeys.bind {R : Engine ν → List (Output ν) → Engine ν → Prop} (composes : Composes R)
    {m : EngineM ν α} {f : α → EngineM ν β} (first : m.Obeys R) (rest : ∀ a, (f a).Obeys R)
    : (m >>= f).Obeys R :=
  fun e => composes.trans (first e) (rest _ _)

/-- An operation does nothing but edits. -/
abbrev EditsBy (author : Option ActivationId) (m : EngineM ν α) : Prop := m.Obeys (Edits author)

namespace EditsBy

theorem pure (a : α) : (Pure.pure a : EngineM ν α).EditsBy author := fun e => .none e

theorem get : (EngineM.get : EngineM ν (Engine ν)).EditsBy author := fun e => .none e

theorem bind {m : EngineM ν α} {f : α → EngineM ν β} (first : m.EditsBy author)
    (rest : ∀ a, (f a).EditsBy author)
    : (m >>= f).EditsBy author :=
  Obeys.bind Edits.composes first rest

theorem emit {event : Event} (report : event.isReport)
    : (EngineM.emit event : EngineM ν Unit).EditsBy author :=
  fun e => .single (.report e report)

theorem note (n : ν) : (EngineM.note n).EditsBy author := fun e => .single (.note e n)

theorem endless : (EngineM.endless : EngineM ν Unit).EditsBy author :=
  fun e => .single (.report e rfl)

end EditsBy

/-- An operation leaves the engine as it is and puts out only what is allowed. -/
def Observes (allowed : Output ν → Prop) (m : EngineM ν α) : Prop :=
  ∀ e, (m.run e).engine = e ∧ ∀ o ∈ (m.run e).output, allowed o

namespace Observes

variable {allowed : Output ν → Prop}

theorem pure (a : α) : (Pure.pure a : EngineM ν α).Observes allowed := fun _ => ⟨rfl, nofun⟩

theorem get : (EngineM.get : EngineM ν (Engine ν)).Observes allowed := fun _ => ⟨rfl, nofun⟩

theorem bind {m : EngineM ν α} {f : α → EngineM ν β} (first : m.Observes allowed)
    (rest : ∀ a, (f a).Observes allowed)
    : (m >>= f).Observes allowed := by
  intro e
  obtain ⟨same, before⟩ := first e
  obtain ⟨same', after⟩ := rest (m.run e).result (m.run e).engine
  refine ⟨same'.trans same, ?_⟩
  intro o member
  exact (List.mem_append.mp member).elim (before o) (after o)

theorem emit {event : Event} (fine : allowed (.event event))
    : (EngineM.emit event : EngineM ν Unit).Observes allowed :=
  fun _ => ⟨rfl, fun _ member => List.mem_singleton.mp member ▸ fine⟩

theorem endless (fine : allowed .endless)
    : (EngineM.endless : EngineM ν Unit).Observes allowed :=
  fun _ => ⟨rfl, fun _ member => List.mem_singleton.mp member ▸ fine⟩

/-- What is caught in no match and changes nothing keeps nothing from its end. -/
theorem returns_bind_iff {m : EngineM ν α} (quiet : m.Observes fun o => o.isEndless = false)
    (f : α → EngineM ν β) (e : Engine ν)
    : ((m >>= f).run e).Returns ↔ ((f (m.run e).result).run e).Returns := by
  obtain ⟨same, returns⟩ := quiet e
  rw [returns_bind, same]
  exact and_iff_right returns

end Observes

-- --------------------------------------------------------------------------------------
-- What operations do
-- --------------------------------------------------------------------------------------

/-- Matching and queries only report. -/
theorem Observes.reading
    : HoldsOfReading fun α (m : EngineM ν α) => m.Observes (·.isReport) where
  pure := .pure
  bind := .bind
  look rest _ := .bind .get rest
  report harmless := .emit harmless
  endless := .endless rfl

/-- Operations and the bodies of rules do nothing but edits. Storing a fact is one edit, if the
record can be stored at all, and so is taking a fact out, if it is stored.
-/
theorem EditsBy.editing
    : HoldsOfEditing author fun α (m : EngineM ν α) => m.EditsBy author where
  pure := .pure
  bind := .bind
  look rest _ := .bind .get rest
  report := .emit
  endless := .endless
  note := .note
  registry g e := .single (.registry e (g e.registry))
  store r origin justified e := by
    cases asserted : e.store.assert r origin with
    | error failure => simpa [Engine.storeFact, asserted] using .none e
    | ok stored => simpa [Engine.storeFact, asserted] using .single (.assert asserted justified)
  retract id e := by
    cases retracted : e.store.retract? id with
    | none => simpa [Engine.retract, retracted] using .none e
    | some taken => simpa [Engine.retract, retracted] using .single (.retract retracted)
  define d := by
    unfold Engine.define
    split
    · exact .bind (.emit rfl) fun _ => .pure _
    · exact .bind .get fun _ => .bind (fun e => .single (.define e d)) fun _ =>
        .bind (.emit rfl) fun _ => .pure _
  undefine id := by
    unfold Engine.undefine
    refine .bind .get fun e => ?_
    cases e.definitions.find? (·.id == id) with
    | none => exact .pure _
    | some d =>
      exact .bind (fun e => .single (.undefine e id)) fun _ => .bind (.emit rfl) fun _ => .pure _

end EngineM

end RuleEngine
