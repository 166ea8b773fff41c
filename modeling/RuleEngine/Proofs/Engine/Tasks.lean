import RuleEngine.Engine.Running
import RuleEngine.Proofs.Engine.Edits
import RuleEngine.Proofs.Engine.Resolution
import RuleEngine.Proofs.Join.Found

/-! What dealing with a task comes to. A task for an asserted fact is passed over, or fires one
activation whose facts are all stored, or is put back; only what is fired changes facts.
-/

namespace RuleEngine

namespace Output

variable {ν : Type}

/-- The change of a fact that output publishes. -/
def change? : Output ν → Option Task
  | event e => e.change?
  | _ => none

/-- The task that output records as scheduled. -/
def scheduled? : Output ν → Option Task
  | scheduled t => some t
  | _ => none

/-- Output that is not about facts and tasks. -/
def IsSilent (o : Output ν) : Prop := o.change? = none ∧ o.scheduled? = none

theorem isSilent_of_isReport {o : Output ν} (report : o.isReport) : o.IsSilent := by
  cases o with
  | event e => cases e <;> first | exact ⟨rfl, rfl⟩ | cases report
  | endless => exact ⟨rfl, rfl⟩
  | note n | scheduled t => cases report

end Output

/-- A match consumes facts that the join was given, by induction on the conditions. -/
theorem Join.consumed_of_found {facts : String → List Fact} {conditions : List Condition}
    {b : Bindings} {m : Match} (found : m ∈ found (steps facts conditions b))
    {id : FactId} (member : id ∈ m.consumed)
    : ∃ kind, ∃ f ∈ facts kind, f.id = id := by
  induction conditions generalizing b m with
  | nil =>
    obtain rfl := List.mem_singleton.mp found
    cases member
  | cons condition rest ih =>
    cases condition with
    | lacks c =>
      rw [found_lacks] at found
      split at found
      · cases found
      · exact ih found member
    | accumulate c =>
      rw [found_accumulate] at found
      split at found
      · cases found
      · exact ih found member
    | pattern c =>
      rw [found_pattern] at found
      obtain ⟨f, stored, chosen⟩ := List.mem_flatMap.mp found
      split at chosen
      · cases chosen
      · obtain ⟨inner, later, rfl⟩ := List.mem_map.mp chosen
        rcases List.mem_cons.mp member with rfl | more
        · exact ⟨c.kind, f, stored, rfl⟩
        · exact ih later more

namespace Engine

open EngineM

variable {ν : Type}

/-- The facts that the engine stores have these identities. -/
def Stores (e : Engine ν) (ids : List FactId) : Prop :=
  ∀ id ∈ ids, ∃ kind, ∃ f ∈ e.store.factsOfKind kind, f.id = id

/-- What conditions match consumes stored facts. -/
theorem matchesFor_stores {definition : String} {conditions : List Condition} {b : Bindings}
    {limit : Option Nat} (e : Engine ν) {m : Match}
    (found : m ∈ ((matchesFor definition conditions b limit).run e).result)
    : e.Stores m.consumed := by
  intro id member
  have among : m ∈ Join.found (Join.steps e.store.factsOfKind conditions b) :=
    ((Join.upTo_prefix limit _).filterMap JoinStep.match?).subset found
  exact Join.consumed_of_found among member

/-- What is found consumes stored facts, by induction on the rules. -/
theorem findActivations_stores (e : Engine ν) (rules : List (Rule ν)) {a : Activation ν}
    (found : a ∈ ((findActivations rules).run e).result)
    : e.Stores a.consumed := by
  induction rules with
  | nil => cases found
  | cons r rest ih =>
    have same := (Observes.reading.matchesFor r.id r.conditions .empty none e).1
    simp only [findActivations, run_bind, run_pure, same] at found
    rcases List.mem_append.mp found with first | later
    · obtain ⟨m, match?, rfl⟩ := List.mem_map.mp first
      exact matchesFor_stores e match?
    · exact ih later

/-- Guards are only reported on. -/
theorem guardsPass_observes {P : Output ν → Prop} (a : Activation ν)
    (passed : P (.event (.preConditionPassed a.rule.id)))
    (failed : ∀ failure, P (.event (.preConditionFailed a.rule.id failure)))
    (fault : ∀ guard failure, P (.event (.guardError a.rule.id guard failure)))
    : (guardsPass a).Observes P := by
  unfold guardsPass
  cases checkGuards a.bindings a.rule.guards with
  | passed => exact .bind (.emit passed) fun _ => .pure _
  | failed => exact .bind (.emit (failed none)) fun _ => .pure _
  | fault guard failure =>
    exact .bind (.emit (fault _ failure)) fun _ => .bind (.emit (failed failure)) fun _ => .pure _

/-- To fire an activation is to track it under the next identity, to edit in its name, and to
track it no longer if it justifies nothing.
-/
theorem fire_edits (a : Activation ν) (e : Engine ν)
    : ∃ e' out,
        Edits (some ⟨e.nextActivation⟩) ((track a).run e).engine out e'
        ∧ ((fire a).run e).engine = ((untrackIfIdle ⟨e.nextActivation⟩).run e').engine
        ∧ ((fire a).run e).output
          = out ++ [.event (.activationFired ⟨e.nextActivation⟩ a.rule.id
              ((fire a).run e).result.failure.isSome)] :=
  let c : Context := ⟨a.rule.id, ⟨e.nextActivation⟩, a.bindings⟩
  ⟨_, _, EditsBy.editing.runBody (c := c) a.rule ((track a).run e).engine, rfl,
    by simp [fire, track, untrackIfIdle, c]⟩

/-- What comes of a task for an asserted fact. Output that comes before the firing is silent. -/
inductive Dealt (t : Task) (mayFire : Bool) (e : Engine ν)
    : Ran ν (Except Failure (Option Fired)) → Prop where
  | passedOver {out : List (Output ν)} (silent : ∀ o ∈ out, o.IsSilent)
    : Dealt t mayFire e ⟨.ok none, e, out⟩
  | fired {a : Activation ν} {out : List (Output ν)} (allowed : mayFire = true)
    (silent : ∀ o ∈ out, o.IsSilent) (stored : e.Stores a.consumed)
    : Dealt t mayFire e
        ⟨.ok (some ((fire a).run e).result), ((fire a).run e).engine,
          out ++ ((fire a).run e).output⟩
  | putBack {failure : Failure} {out : List (Output ν)} (refused : mayFire = false)
    (silent : ∀ o ∈ out, o.IsSilent)
    : Dealt t mayFire e ⟨.error failure, { e with agenda := e.agenda.putBack t }, out⟩

/-- The selected activation fires only if its guards pass and the run may fire. -/
theorem fireSelected_dealt (t : Task) (a : Activation ν) (mayFire : Bool) (e : Engine ν)
    (stored : e.Stores a.consumed)
    : Dealt t mayFire e ((fireSelected t a mayFire).run e) := by
  obtain ⟨same, quiet⟩ := guardsPass_observes (P := Output.IsSilent) a ⟨rfl, rfl⟩
    (fun _ => ⟨rfl, rfl⟩) (fun _ _ => ⟨rfl, rfl⟩) e
  have silent : ∀ o ∈ .event (.activationSelected a.rule.id a.bindings)
      :: ((guardsPass a).run e).output, o.IsSilent := by
    intro o member
    rcases List.mem_cons.mp member with rfl | later
    · exact ⟨rfl, rfl⟩
    · exact quiet o later
  cases passed : ((guardsPass a).run e).result with
  | false => simpa [fireSelected, passed, same] using .passedOver silent
  | true =>
    cases mayFire with
    | true => simpa [fireSelected, passed, same] using .fired rfl silent stored
    | false =>
      have reported (failure : Failure) : ∀ o ∈ .event (.activationSelected a.rule.id a.bindings)
          :: ((guardsPass a).run e).output
            ++ [.event (.engineError (some a.rule.id) failure)], o.IsSilent := by
        intro o member
        rcases List.mem_append.mp member with before | last
        · exact silent o before
        · exact List.mem_singleton.mp last ▸ ⟨rfl, rfl⟩
      simpa [fireSelected, passed, same] using .putBack rfl (reported _)

/-- Silent output in front changes nothing about what comes of a task. -/
theorem Dealt.afterSilence {t : Task} {mayFire : Bool} {e : Engine ν}
    {ran : Ran ν (Except Failure (Option Fired))} (dealt : Dealt t mayFire e ran)
    {out : List (Output ν)} (silent : ∀ o ∈ out, o.IsSilent)
    : Dealt t mayFire e { ran with output := out ++ ran.output } := by
  have joined {more : List (Output ν)} (quiet : ∀ o ∈ more, o.IsSilent)
      : ∀ o ∈ out ++ more, o.IsSilent := fun o member =>
    (List.mem_append.mp member).elim (silent o) (quiet o)
  cases dealt with
  | passedOver quiet => exact .passedOver (joined quiet)
  | fired allowed quiet stored =>
    rw [← List.append_assoc]
    exact .fired allowed (joined quiet) stored
  | putBack refused quiet => exact .putBack refused (joined quiet)

/-- A task for a fact that is gone withdraws its support, and fires nothing. -/
theorem process_retracted {t : Task} (retracted : t.change = .retracted) (mayFire : Bool)
    (e : Engine ν)
    : (process t mayFire).run e
      = ⟨.ok none, ((maintainSupport t.fact.id).run e).engine,
          ((maintainSupport t.fact.id).run e).output⟩ := by
  simp [process, retracted]

/-- A task for an asserted fact is passed over, fires an activation or is put back. -/
theorem process_dealt {t : Task} (asserted : t.change = .asserted) (mayFire : Bool)
    (e : Engine ν)
    : Dealt t mayFire e ((process t mayFire).run e) := by
  obtain ⟨same, reports⟩ := Observes.reading.findActivations e.rules e
  have stored (a : Activation ν) := findActivations_stores e e.rules (a := a)
  cases found : (findActivations e.rules).run e with
  | mk candidates e' out =>
    simp only [found] at same reports stored
    subst same
    have silent : ∀ o ∈ out ++ [.event (.activationsFound t.fact.id candidates.length)],
        o.IsSilent := by
      intro o member
      rcases List.mem_append.mp member with before | last
      · exact Output.isSilent_of_isReport (reports o before)
      · exact List.mem_singleton.mp last ▸ ⟨rfl, rfl⟩
    cases selected : Activation.resolve candidates with
    | none => simpa [process, asserted, found, selected] using .passedOver silent
    | some a =>
      have dealt :=
        fireSelected_dealt t a mayFire e' (stored a (Activation.mem_of_resolve selected))
      simpa [process, asserted, found, selected] using dealt.afterSilence silent

/-- A task at which the limit stops the run is put back, and nothing else happens. -/
theorem process_halted {t : Task} {mayFire : Bool} {e e' : Engine ν} {failure : Failure}
    {out : List (Output ν)} (dealt : (process t mayFire).run e = ⟨.error failure, e', out⟩)
    : e' = { e with agenda := e.agenda.putBack t } ∧ ∀ o ∈ out, o.IsSilent := by
  cases change : t.change with
  | retracted =>
    rw [process_retracted change] at dealt
    cases dealt
  | asserted =>
    have outcome := process_dealt change mayFire e
    rw [dealt] at outcome
    cases outcome with
    | putBack refused silent => exact ⟨rfl, silent⟩

-- --------------------------------------------------------------------------------------
-- Tasks that may not fire
-- --------------------------------------------------------------------------------------

/-- An activation that may not be fired differs from one that may only if its guards hold. -/
theorem fireSelected_refusing (t : Task) (a : Activation ν) (e : Engine ν)
    : (fireSelected t a false).run e = (fireSelected t a true).run e
      ∨ ∃ out, (fireSelected t a false).run e
        = ⟨.error (.limit (e.config.maxActivations.getD 0)),
            { e with agenda := e.agenda.putBack t }, out⟩ := by
  obtain ⟨same, -⟩ := guardsPass_observes (P := fun _ => True) a trivial
    (fun _ => trivial) (fun _ _ => trivial) e
  cases passed : ((guardsPass a).run e).result with
  | false => exact .inl (by simp [fireSelected, passed])
  | true => exact .inr ⟨_, by simp [fireSelected, passed, same]; rfl⟩

/-- A task that may not fire is dealt with like one that may, or is put back. -/
theorem process_refusing (t : Task) (e : Engine ν)
    : (process t false).run e = (process t true).run e
      ∨ ∃ out, (process t false).run e
        = ⟨.error (.limit (e.config.maxActivations.getD 0)),
            { e with agenda := e.agenda.putBack t }, out⟩ := by
  cases change : t.change with
  | retracted => exact .inl (by rw [process_retracted change, process_retracted change])
  | asserted =>
    obtain ⟨same, -⟩ := Observes.reading.findActivations e.rules e
    cases selected : Activation.resolve ((findActivations e.rules).run e).result with
    | none => exact .inl (by simp [process, change, selected])
    | some a =>
      rcases fireSelected_refusing t a e with alike | ⟨out, halted⟩
      · exact .inl (by simp [process, change, selected, same, alike])
      · exact .inr ⟨_, by simp [process, change, selected, same, halted]; rfl⟩

/-- A task that may fire is never put back. -/
theorem process_firing (t : Task) (e : Engine ν)
    : ∃ fired e' out, (process t true).run e = ⟨.ok fired, e', out⟩ := by
  cases change : t.change with
  | retracted => exact ⟨_, _, _, process_retracted change true e⟩
  | asserted =>
    have outcome := process_dealt change true e
    generalize (process t true).run e = ran at outcome
    cases outcome with
    | passedOver | fired => exact ⟨_, _, _, rfl⟩
    | putBack refused => cases refused

/-- What is dealt with completely is dealt with as if it might fire. -/
theorem process_of_ok {t : Task} {mayFire : Bool} {e e' : Engine ν} {fired : Option Fired}
    {out : List (Output ν)} (dealt : (process t mayFire).run e = ⟨.ok fired, e', out⟩)
    : (process t true).run e = ⟨.ok fired, e', out⟩ := by
  cases mayFire with
  | true => exact dealt
  | false =>
    rcases process_refusing t e with alike | ⟨_, halted⟩
    · exact alike.symm.trans dealt
    · cases halted.symm.trans dealt

/-- A task is only put back if it may not fire, with the limit as the failure. -/
theorem process_of_error {t : Task} {mayFire : Bool} {e e' : Engine ν} {failure : Failure}
    {out : List (Output ν)} (halted : (process t mayFire).run e = ⟨.error failure, e', out⟩)
    : mayFire = false ∧ failure = .limit (e.config.maxActivations.getD 0)
      ∧ e' = { e with agenda := e.agenda.putBack t } := by
  obtain ⟨fired, _, _, firing⟩ := process_firing t e
  cases mayFire with
  | true => cases firing.symm.trans halted
  | false =>
    rcases process_refusing t e with alike | ⟨_, refused⟩
    · cases (alike.trans firing).symm.trans halted
    · obtain ⟨same, rfl, -⟩ := Ran.mk.inj (refused.symm.trans halted)
      exact ⟨rfl, (Except.error.inj same).symm, rfl⟩

/-- A task only fires if it may. -/
theorem process_of_fired {t : Task} {mayFire : Bool} {e e' : Engine ν} {f : Fired}
    {out : List (Output ν)} (dealt : (process t mayFire).run e = ⟨.ok (some f), e', out⟩)
    : mayFire = true := by
  cases change : t.change with
  | retracted =>
    rw [process_retracted change] at dealt
    cases dealt
  | asserted =>
    have outcome := process_dealt change mayFire e
    rw [dealt] at outcome
    cases outcome with
    | fired allowed => exact allowed

end Engine

-- --------------------------------------------------------------------------------------
-- What a task obeys
-- --------------------------------------------------------------------------------------

/-- A relation that composes, and that holds where output is silent and neither facts nor tasks nor
definitions change.
-/
structure AllowsSilence {ν : Type} (R : Engine ν → List (Output ν) → Engine ν → Prop) : Prop
    extends Composes R where
  silent : ∀ {e e' out}, (∀ o ∈ out, o.IsSilent) → e'.store = e.store → e'.agenda = e.agenda →
    e'.definitions = e.definitions → R e out e'

namespace EngineM

variable {ν α : Type} {R : Engine ν → List (Output ν) → Engine ν → Prop}

/-- An event that publishes no change is silent. -/
theorem Obeys.emit (allows : AllowsSilence R) {event : Event} (quiet : event.change? = none)
    : (EngineM.emit event : EngineM ν Unit).Obeys R := by
  refine fun e => allows.silent (fun o member => ?_) rfl rfl rfl
  exact List.mem_singleton.mp member ▸ ⟨quiet, rfl⟩

/-- What does nothing but edits obeys what edits obey. -/
theorem EditsBy.obeys {author : Option ActivationId} {m : EngineM ν α} (edits : m.EditsBy author)
    (composes : Composes R) (edit : ∀ {e out e'}, Edit author e out e' → R e out e')
    : m.Obeys R :=
  fun e => (edits e).lift composes edit

theorem Obeys.reading (allows : AllowsSilence R)
    : HoldsOfReading fun α (m : EngineM ν α) => m.Obeys R where
  pure _ e := allows.refl e
  bind := Obeys.bind allows.toComposes
  look rest _ := Obeys.bind allows.toComposes (fun e => allows.refl e) rest
  report {event} harmless := .emit allows (by cases event <;> first | rfl | cases harmless)
  endless e := allows.silent (fun o member => List.mem_singleton.mp member ▸ ⟨rfl, rfl⟩) rfl rfl rfl

/-- Withdrawing support obeys what retractions obey. -/
theorem Obeys.withdrawing (allows : AllowsSilence R)
    (retracts : ∀ id, (Engine.retract id : EngineM ν (Option Fact)).Obeys R)
    : HoldsOfWithdrawing fun α (m : EngineM ν α) => m.Obeys R where
  toHoldsOfReading := reading allows
  withdrawal {event} about := .emit allows (by cases event <;> first | rfl | cases about)
  tracked _ _ := allows.silent nofun rfl rfl rfl
  retract := retracts

/-- Changes of facts and the bodies of rules obey what edits obey. -/
theorem Obeys.editing {author : Option ActivationId} (allows : AllowsSilence R)
    (edit : ∀ {e out e'}, Edit author e out e' → R e out e')
    : HoldsOfEditing author fun α (m : EngineM ν α) => m.Obeys R :=
  have edits : HoldsOfEditing author fun α (m : EngineM ν α) => m.EditsBy author :=
    EditsBy.editing
  { toHoldsOfReading := reading allows
    note := fun n => (edits.note n).obeys allows.toComposes edit
    registry := fun g => (edits.registry g).obeys allows.toComposes edit
    store := fun r _ justified => (edits.store r justified).obeys allows.toComposes edit
    retract := fun id => (edits.retract id).obeys allows.toComposes edit
    define := fun d => (edits.define d).obeys allows.toComposes edit
    undefine := fun id => (edits.undefine id).obeys allows.toComposes edit }

/-- Dealing with a task obeys what edits obey, whatever the bodies of rules do. -/
theorem Obeys.working (allows : AllowsSilence R)
    (edit : ∀ {author e out e'}, Edit author e out e' → R e out e')
    : HoldsOfWorking fun α (m : EngineM ν α) => m.Obeys R :=
  have byNone : HoldsOfEditing none fun α (m : EngineM ν α) => m.Obeys R := editing allows edit
  { toHoldsOfWithdrawing := withdrawing allows byNone.retract
    course := .emit allows
    issued := fun _ _ => allows.silent nofun rfl rfl rfl
    editing := fun _ => editing allows edit }

end EngineM

/-- A task that is dealt with completely obeys what edits obey. -/
theorem Engine.process_obeys {ν : Type} {R : Engine ν → List (Output ν) → Engine ν → Prop}
    (allows : AllowsSilence R) (edit : ∀ {author e out e'}, Edit author e out e' → R e out e')
    {t : Task} {mayFire : Bool} {e e' : Engine ν} {fired : Option Fired} {out : List (Output ν)}
    (dealt : (process t mayFire).run e = ⟨.ok fired, e', out⟩)
    : R e out e' := by
  have obeyed := (EngineM.Obeys.working allows edit).process t e
  rw [process_of_ok dealt] at obeyed
  exact obeyed

end RuleEngine
