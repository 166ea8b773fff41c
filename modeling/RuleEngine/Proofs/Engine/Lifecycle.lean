import RuleEngine.Proofs.Engine.Courses
import RuleEngine.Proofs.Engine.Rounds
import RuleEngine.Proofs.Engine.Selection

/-! The lifecycle of an activation that is fired. Whatever its rule does and however it fails, the
outcome is the same wherever it shows, the facts are as the stages left them, and the activation
stays tracked exactly if it justified a fact.
-/

namespace RuleEngine

variable {ν : Type}

/-- The fact that output reports as asserted on the strength of an activation. -/
def Output.justifiedBy? (id : ActivationId) : Output ν → Option FactId
  | event (.factAsserted fact _ (some activation)) => if activation = id then some fact.id else none
  | _ => none

/-- The facts that an activation justified, in the order in which they were asserted. -/
def justifiedBy (id : ActivationId) (out : List (Output ν)) : List FactId :=
  out.filterMap (·.justifiedBy? id)

@[simp]
theorem justifiedBy_append (id : ActivationId) (out more : List (Output ν))
    : justifiedBy id (out ++ more) = justifiedBy id out ++ justifiedBy id more :=
  List.filterMap_append

theorem justifiedBy_cons_self (id : ActivationId) (fact : Fact) (logical : Bool)
    (out : List (Output ν))
    : justifiedBy id (.event (.factAsserted fact logical (some id)) :: out)
      = fact.id :: justifiedBy id out := by
  simp [justifiedBy, Output.justifiedBy?]

/-- An activation justified something exactly if an event says so. -/
theorem exists_mem_justifiedBy_iff {id : ActivationId} {out : List (Output ν)}
    : (∃ fact, fact ∈ justifiedBy id out)
      ↔ ∃ f logical, .event (.factAsserted f logical (some id)) ∈ out := by
  constructor
  · rintro ⟨fact, member⟩
    obtain ⟨o, among, same⟩ := List.mem_filterMap.mp member
    unfold Output.justifiedBy? at same
    split at same
    · split at same
      · rename_i f logical _ isSame
        subst isSame
        exact ⟨f, logical, among⟩
      · cases same
    · cases same
  · rintro ⟨f, logical, among⟩
    exact ⟨f.id, List.mem_filterMap.mpr ⟨_, among, by simp [Output.justifiedBy?]⟩⟩

theorem Output.justifiedBy?_of_isReport {id : ActivationId} {o : Output ν} (report : o.isReport)
    : o.justifiedBy? id = none := by
  cases o with
  | event e => cases e <;> first | rfl | cases report
  | note | scheduled | endless => rfl

namespace Engine

open EngineM

/-- Notes several facts with an activation. -/
def noteAll (id : ActivationId) (facts : List FactId) (tracked : List Tracked) : List Tracked :=
  facts.foldl (fun tracked fact => noteProduced id fact tracked) tracked

/-- What is tracked changes by the facts that an activation justifies. -/
def Notes (id : ActivationId) (e : Engine ν) (out : List (Output ν)) (e' : Engine ν) : Prop :=
  e'.tracked = noteAll id (justifiedBy id out) e.tracked

namespace Notes

theorem composes (id : ActivationId) : Composes (Notes (ν := ν) id) where
  refl _ := rfl
  trans first rest := by
    rw [Notes, rest, first, justifiedBy_append, noteAll, noteAll, noteAll, List.foldl_append]

theorem edit {id : ActivationId} {e e' : Engine ν} {out : List (Output ν)}
    (edit : Edit (some id) e out e')
    : Notes id e out e' := by
  cases edit with
  | @report o _ harmless =>
    have nothing : justifiedBy id [o] = [] := by
      simp [justifiedBy, o.justifiedBy?_of_isReport harmless]
    rw [Notes, nothing]
    rfl
  | note | registry | define | undefine | retract => rfl
  | @assert e _ origin entry _ _ justified =>
    cases origin with
    | stated => rfl
    | logical activation =>
      obtain rfl := Option.some.inj (justified activation rfl)
      have noted := justifiedBy_cons_self id entry.fact true
        [.scheduled (ν := ν) ⟨.asserted, entry.fact⟩]
      exact congrArg (noteAll id · e.tracked) noted.symm

end Notes

-- --------------------------------------------------------------------------------------
-- What stays tracked
-- --------------------------------------------------------------------------------------

section

variable {id : ActivationId} {olds : List Tracked} (fresh : ∀ t ∈ olds, t.id ≠ id)

include fresh

/-- Facts are noted with their activation alone, by induction on the facts. -/
theorem noteAll_append_singleton (rule : String) (consumed produced : FactIds)
    (facts : List FactId)
    : noteAll id facts (olds ++ [⟨id, rule, consumed, produced⟩])
      = olds ++ [⟨id, rule, consumed,
          facts.foldl (fun set fact => FactIds.insert fact set) produced⟩] := by
  induction facts generalizing produced with
  | nil => rfl
  | cons fact rest ih =>
    have others : noteProduced id fact olds = olds := by
      rw [noteProduced, List.map_congr_left (g := fun t => t), List.map_id']
      intro t member
      exact if_neg (fresh t member)
    have noted : noteProduced id fact (olds ++ [⟨id, rule, consumed, produced⟩])
        = olds ++ [⟨id, rule, consumed, FactIds.insert fact produced⟩] := by
      rw [noteProduced, List.map_append, ← noteProduced, others]
      simp
    exact (congrArg (noteAll id rest) noted).trans (ih _)

/-- An activation stays tracked exactly if it justified a fact. -/
theorem filter_idle (rule : String) (consumed : FactIds) (facts : List FactId)
    : List.filter (fun t : Tracked => !(t.id == id && t.produced.isEmpty))
        (olds ++ [⟨id, rule, consumed, FactIds.ofList facts⟩])
      = olds ++ if facts = [] then [] else [⟨id, rule, consumed, FactIds.ofList facts⟩] := by
  have kept : olds.filter (fun t => !(t.id == id && t.produced.isEmpty)) = olds := by
    refine List.filter_eq_self.mpr fun t member => ?_
    simp [fresh t member]
  rw [List.filter_append, kept]
  cases facts with
  | nil => simp [FactIds.ofList]
  | cons fact rest =>
    have busy : (FactIds.ofList (fact :: rest)).isEmpty = false := by
      have member : fact ∈ FactIds.ofList (fact :: rest) := FactIds.mem_ofList.mpr (.head _)
      exact List.isEmpty_eq_false_iff.mpr (List.ne_nil_of_mem member)
    simp [busy]

end

-- --------------------------------------------------------------------------------------
-- Firings
-- --------------------------------------------------------------------------------------

/-- The context of an activation that is fired next. -/
def contextOf (a : Activation ν) (e : Engine ν) : Context :=
  ⟨a.rule.id, ⟨e.nextActivation⟩, a.bindings⟩

/-- What is tracked once an activation is fired that justifies some facts. -/
def trackedAfter (a : Activation ν) (e : Engine ν) (facts : List FactId) : List Tracked :=
  e.tracked
    ++ if facts = [] then []
      else [⟨⟨e.nextActivation⟩, a.rule.id, FactIds.ofList a.consumed, FactIds.ofList facts⟩]

/-- What becomes of an activation that is fired: its rule comes to the outcome of `body`, and the
last hook leaves the engine `ended`.
-/
structure Lifecycle (a : Activation ν) (e : Engine ν) (body : Ran ν (Option Failure))
    (ended : Engine ν) (last : List (Output ν)) (ran : Ran ν Fired) : Prop where
  wrapped : a.rule.Wrapped (contextOf a e) ((track a).run e).engine body
  /-- The last hook comes after everything else, and sees the outcome. -/
  afterwards : a.rule.Afterwards (contextOf a e) body.result body.engine ended last
  result : ran.result = ⟨⟨e.nextActivation⟩, a.rule.id, a.bindings, a.consumed, body.result⟩
  /-- The failure that is left is reported, and whether there is one. -/
  output : ran.output
    = body.output ++ last
      ++ body.result.toList.map (fun failure => .event (.engineError (some a.rule.id) failure))
      ++ [.event (.activationFired ⟨e.nextActivation⟩ a.rule.id body.result.isSome)]
  /-- The firing comes to its end if its stages do. Behind a match that never ends there is only
  what would follow.
  -/
  returns : ran.Returns ↔ body.Returns ∧ ∀ o ∈ last, o.isEndless = false
  reported : reportedFirings ran.output = [(⟨e.nextActivation⟩, body.result.isSome)]
  /-- The store is what the changes that were reported make of it, failures or not. -/
  recorded : Recorded e ran.output ran.engine
  /-- Nothing but what is tracked changes once the last hook has run. -/
  engine : ran.engine = { ended with tracked := ran.engine.tracked }
  table : ran.engine.tracked = trackedAfter a e (justifiedBy ⟨e.nextActivation⟩ ran.output)
  tracked_iff : (∃ t ∈ ran.engine.tracked, t.id = ⟨e.nextActivation⟩)
    ↔ ∃ fact logical,
        .event (.factAsserted fact logical (some ⟨e.nextActivation⟩)) ∈ ran.output

theorem run_runBody (r : Rule ν) (c : Context) (e : Engine ν)
    : (runBody r c).run e
      = ⟨((wrapped r c).run e).result,
          ((runAfter r c ((wrapped r c).run e).result).run ((wrapped r c).run e).engine).engine,
          ((wrapped r c).run e).output
            ++ ((runAfter r c ((wrapped r c).run e).result).run
              ((wrapped r c).run e).engine).output
            ++ ((wrapped r c).run e).result.toList.map
              fun failure => .event (.engineError (some r.id) failure)⟩ := by
  unfold runBody
  cases left : ((wrapped r c).run e).result <;> simp [left]

/-- The bodies of rules run in the name of their activation. -/
theorem tracked_runBody (r : Rule ν) (c : Context) (e : Engine ν)
    : ((runBody r c).run e).engine.tracked
      = noteAll c.activation (justifiedBy c.activation ((runBody r c).run e).output) e.tracked :=
  Edits.lift (Notes.composes c.activation) Notes.edit (EditsBy.editing.runBody r e)

theorem run_fire (a : Activation ν) (e : Engine ν)
    : (fire a).run e
      = ⟨⟨⟨e.nextActivation⟩, a.rule.id, a.bindings, a.consumed,
            ((runBody a.rule (contextOf a e)).run ((track a).run e).engine).result⟩,
          ((untrackIfIdle ⟨e.nextActivation⟩).run
            ((runBody a.rule (contextOf a e)).run ((track a).run e).engine).engine).engine,
          ((runBody a.rule (contextOf a e)).run ((track a).run e).engine).output
            ++ [.event (.activationFired ⟨e.nextActivation⟩ a.rule.id
              ((runBody a.rule (contextOf a e)).run ((track a).run e).engine).result.isSome)]⟩ := by
  simp [fire, track, untrackIfIdle, contextOf]

/-- The table of tracked activations after a firing. -/
theorem tracked_fire (a : Activation ν) (e : Engine ν)
    (fresh : ∀ t ∈ e.tracked, t.id ≠ ⟨e.nextActivation⟩)
    : ((fire a).run e).engine.tracked
      = trackedAfter a e (justifiedBy ⟨e.nextActivation⟩ ((fire a).run e).output) := by
  let id : ActivationId := ⟨e.nextActivation⟩
  rw [run_fire]
  generalize bodyRan : (runBody a.rule (contextOf a e)).run ((track a).run e).engine = ran
  have noted : ran.engine.tracked
      = e.tracked
        ++ [⟨id, a.rule.id, FactIds.ofList a.consumed,
          FactIds.ofList (justifiedBy id ran.output)⟩] := by
    have edited := tracked_runBody a.rule (contextOf a e) ((track a).run e).engine
    rw [bodyRan] at edited
    exact edited.trans (noteAll_append_singleton fresh _ _ _ _)
  have same : justifiedBy id
      (ran.output ++ [.event (.activationFired id a.rule.id ran.result.isSome)])
        = justifiedBy id ran.output :=
    (justifiedBy_append ..).trans (List.append_nil _)
  rw [same]
  exact (congrArg (List.filter _) noted).trans (filter_idle fresh _ _ _)

/-- A firing runs its course, stage by stage. -/
theorem fire_lifecycle (a : Activation ν) (e : Engine ν)
    (fresh : ∀ t ∈ e.tracked, t.id.number < e.nextActivation)
    : ∃ body ended last, Lifecycle a e body ended last ((fire a).run e) := by
  have apart : ∀ t ∈ e.tracked, t.id ≠ ⟨e.nextActivation⟩ := by
    intro t member same
    have below := fresh t member
    rw [same] at below
    exact Nat.lt_irrefl _ below
  have table := tracked_fire a e apart
  have recorded := (Obeys.working Recorded.allowsSilence Recorded.edit).fire a e
  obtain ⟨marked, -⟩ := fire_marks a e
  have stages := run_fire a e
  rw [run_runBody] at stages
  generalize bodyRan : (wrapped a.rule (contextOf a e)).run ((track a).run e).engine = body
    at stages
  have wraps := wrapped_wrapped a.rule (contextOf a e) ((track a).run e).engine
  rw [bodyRan] at wraps
  refine ⟨body, _, _, wraps, runAfter_afterwards a.rule (contextOf a e) body.engine body.result,
    ?_, ?_, ?_, ?_, recorded, ?_, table, ?_⟩
  · rw [stages]
  · rw [stages]
  · rw [stages]
    cases body.result <;> simp [Ran.Returns, or_imp, forall_and, Output.isEndless]
  · rw [reportedFirings, marked, stages]
    rfl
  · rw [stages]
    rfl
  · rw [← exists_mem_justifiedBy_iff, table, trackedAfter]
    split
    · rename_i none
      rw [List.append_nil, none]
      constructor
      · rintro ⟨t, member, same⟩
        exact absurd same (apart t member)
      · rintro ⟨fact, member⟩
        cases member
    · rename_i some
      exact iff_of_true ⟨_, List.mem_append_right _ (List.mem_singleton_self _), rfl⟩
        (List.exists_mem_of_ne_nil _ some)

-- --------------------------------------------------------------------------------------
-- Runs that fire
-- --------------------------------------------------------------------------------------

/-- Something ends with the firing of an activation that has an identity of its own. -/
inductive EndsFiring : Fired → List (Output ν) → Engine ν → Prop where
  | fired {a : Activation ν} {e : Engine ν} (before : List (Output ν))
    (fresh : ∀ t ∈ e.tracked, t.id.number < e.nextActivation)
    : EndsFiring ((fire a).run e).result (before ++ ((fire a).run e).output)
        ((fire a).run e).engine

theorem EndsFiring.after {f : Fired} {out : List (Output ν)} {e : Engine ν}
    (ends : EndsFiring f out e) (before : List (Output ν))
    : EndsFiring f (before ++ out) e := by
  obtain ⟨between, fresh⟩ := ends
  rw [← List.append_assoc]
  exact .fired _ fresh

/-- A task that fires ends with the firing. -/
theorem process_endsFiring {t : Task} {mayFire : Bool} {e e' : Engine ν} {f : Fired}
    {out : List (Output ν)} (fresh : ∀ t ∈ e.tracked, t.id.number < e.nextActivation)
    (dealt : (process t mayFire).run e = ⟨.ok (some f), e', out⟩)
    : EndsFiring f out e' := by
  cases change : t.change with
  | retracted =>
    rw [process_retracted change] at dealt
    cases dealt
  | asserted =>
    have outcome := process_dealt change mayFire e
    rw [dealt] at outcome
    cases outcome with
    | fired => exact .fired _ fresh

/-- By induction on the number of tasks. -/
theorem advance_endsFiring {e : Engine ν} {out : List (Output ν)} {done : List Task}
    (history : History e out done) (most : Nat) {r r' : Run} {f : Fired}
    (fired : ((advance most r).run e).result = (.fired f, r'))
    : EndsFiring f ((advance most r).run e).output ((advance most r).run e).engine := by
  induction most generalizing e out done r with
  | zero => cases fired
  | succ most ih =>
    cases taken : e.agenda.next? with
    | none => simp [advance, taken] at fired
    | some first =>
      obtain ⟨t, agenda⟩ := first
      cases dealt : (process t (mayFire e.config r.summary)).run { e with agenda } with
      | mk result e' more =>
        rcases result with failure | _ | f'
        · simp [advance, taken, dealt] at fired
        · have later := ih (history.processed taken dealt)
            (r := { r with summary := r.summary.countTask })
            (by simpa [advance, taken, dealt] using fired)
          simpa [advance, taken, dealt] using later.after more
        · obtain ⟨rfl, -⟩ : f' = f ∧ _ := by simpa [advance, taken, dealt] using fired
          have ends := process_endsFiring (e := { e with agenda })
            (settled_of_history history).issued dealt
          simpa [advance, taken, dealt] using ends

theorem next_endsFiring {e : Engine ν} {out : List (Output ν)} {done : List Task}
    (history : History e out done) {r r' : Run} {f : Fired}
    (fired : ((next r).run e).result = (.fired f, r'))
    : EndsFiring f ((next r).run e).output ((next r).run e).engine := by
  cases halted : r.halted with
  | true => simp [next, halted] at fired
  | false =>
    have advanced := advance_endsFiring history (e.store.size + e.agenda.size + 1) (r := r)
      (by simpa [next, halted] using fired)
    simpa [next, halted] using advanced

/-- A run that fires counts the firing, and counts it as failed if it failed. -/
theorem next_counts {e : Engine ν} {r r' : Run} {f : Fired}
    (fired : ((next r).run e).result = (.fired f, r'))
    : reportedFirings ((next r).run e).output = [(f.id, f.failure.isSome)]
      ∧ r'.summary.fired = r.summary.fired + 1
      ∧ r'.summary.failed = r.summary.failed + if f.failure.isSome then 1 else 0 := by
  have goes : Goes r e [f] none r' ((next r).run e).output ((next r).run e).engine := by
    have goes := next_goes r e
    rw [fired] at goes
    exact goes
  cases goes with
  | between proceeds =>
    refine ⟨proceeds.rounds.filterMap_fired?, rfl, ?_⟩
    cases failed : f.failure.isSome <;> simp [RunSummary.after, failed]

/-- Every firing runs its course, whatever the action of its rule, the handlers and the hooks do,
and whatever they remember of what was done before. Each time the rule proceeds the action runs
once, the first handler for the name of its failure takes over, and the conditions for afterwards
are looked at exactly if no failure is left; the hook around has the last word on the outcome; and
the last hook runs once after all of it. The outcome is what the firing gives, what the report of
the firing says, what is reported as the failure of the rule, and what the run counts. Changes of
facts stay as they were made, and the activation is tracked from then on exactly if it asserted a
fact logically. Every firing of a run is of this kind.
-/
theorem firings_run_their_course
    : (∀ (a : Activation ν) (e : Engine ν), (∀ t ∈ e.tracked, t.id.number < e.nextActivation) →
        ∃ body ended last, Lifecycle a e body ended last ((fire a).run e))
      ∧ ∀ (e : Engine ν) (out : List (Output ν)) (done : List Task), History e out done →
          ∀ r r' f, ((next r).run e).result = (.fired f, r') →
            ∃ a e₀ before body ended last,
              Lifecycle a e₀ body ended last ((fire a).run e₀)
              ∧ (fire a).run e₀ = ⟨f, ((next r).run e).engine, ((fire a).run e₀).output⟩
              ∧ ((next r).run e).output = before ++ ((fire a).run e₀).output
              ∧ f.failure = body.result
              ∧ reportedFirings ((next r).run e).output = [(f.id, body.result.isSome)]
              ∧ r'.summary.fired = r.summary.fired + 1
              ∧ r'.summary.failed = r.summary.failed + if body.result.isSome then 1 else 0 := by
  refine ⟨fire_lifecycle, fun e out done history r r' f fired => ?_⟩
  have counts := next_counts fired
  have ends := next_endsFiring history fired
  generalize ((next r).run e).engine = e', ((next r).run e).output = more at counts ends
  obtain ⟨before, fresh⟩ := ends
  rename_i a e₀
  obtain ⟨body, ended, last, lifecycle⟩ := fire_lifecycle a e₀ fresh
  have outcome : ((fire a).run e₀).result.failure = body.result := by rw [lifecycle.result]
  rw [outcome] at counts
  exact ⟨a, e₀, before, body, ended, last, lifecycle, rfl, rfl, outcome, counts⟩

end Engine

namespace Sample

/-- A rule whose action remembers by notes how often it ran. It asserts an alarm the second time,
and jams every other time. Its hook lets it proceed three times, the first handler for the jam gives
up each time, and the last hook fails too.
-/
def jammed : Rule Unit where
  id := "watch"
  salience := 0
  conditions := [.matching "Sensor" .wildcard none []]
  guards := []
  postConditions := [.lacking "Alarm" .wildcard]
  action := fun _ => .ask .look fun view => .note () <|
    if view.notes.length = 1 then .ask (.assertLogical (recordOf "Alarm")) fun _ => .done
    else .fail (.action "Jam" "")
  around := some fun _ => .proceed fun _ => .proceed fun _ =>
    .proceed fun failure => failure.elim .done .fail
  after := some fun _ _ => .fail (.action "Late" "")
  handlers := [("Jam", fun _ _ => .fail (.action "Stuck" "")), ("Jam", fun _ _ => .done)]

/-- An engine with a sensor and the rule. -/
def watched : Ran Unit Unit :=
  EngineM.run
    (do
      (Operation.define (.rule jammed)).perform
      (Operation.assert (recordOf "Sensor")).perform)
    (.ofConfig {})

theorem watched_history : History watched.engine watched.output [] := by
  have defined := (History.created {}).operated (.define (.rule jammed))
  have asserted := defined.operated (.assert (recordOf "Sensor"))
  simpa [watched] using asserted

/-- The activation stays tracked for the alarm of the one time that it did not jam, and the run
counts it as failed.
-/
theorem watched_runs_its_course
    : (∃ t ∈ ((Engine.fire ⟨jammed, .empty, [⟨1⟩]⟩).run watched.engine).engine.tracked, t.id = ⟨1⟩)
      ∧ ∃ f r', ((Engine.next {}).run watched.engine).result = (.fired f, r')
          ∧ f.failure.map (·.name) = some "Stuck"
          ∧ Engine.reportedFirings ((Engine.next {}).run watched.engine).output = [(f.id, true)]
          ∧ r'.summary.failed = 1 := by
  obtain ⟨everyFiring, everyRun⟩ := @Engine.firings_run_their_course Unit
  constructor
  · obtain ⟨_, _, _, lifecycle⟩ := everyFiring ⟨jammed, .empty, [⟨1⟩]⟩ watched.engine nofun
    have alarm : (⟨2⟩ : FactId) ∈ justifiedBy ⟨1⟩
        ((Engine.fire ⟨jammed, .empty, [⟨1⟩]⟩).run watched.engine).output := by decide +kernel
    exact lifecycle.tracked_iff.mpr (exists_mem_justifiedBy_iff.mp ⟨_, alarm⟩)
  · have stuck : (((Engine.next {}).run watched.engine).result.1.fired?.bind (·.failure)).map
        (·.name) = some "Stuck" := by decide +kernel
    cases stepped : ((Engine.next {}).run watched.engine).result with
    | mk progress r' =>
      rw [stepped] at stuck
      cases progress with
      | idle | halted => cases stuck
      | fired f =>
        obtain ⟨_, _, _, body, _, _, -, -, -, outcome, reported, -, failed⟩ :=
          everyRun watched.engine _ _ watched_history {} r' f stepped
        have fails : body.result.isSome = true := by
          obtain ⟨failure, left, -⟩ := Option.map_eq_some_iff.mp stuck
          exact outcome ▸ Option.isSome_of_eq_some left
        rw [fails] at reported failed
        exact ⟨f, r', rfl, stuck, reported, failed⟩

end Sample

end RuleEngine
