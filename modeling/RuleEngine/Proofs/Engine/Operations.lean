import RuleEngine.Engine.Running

/-! Properties of operations. An engine does everything by a few elementary operations, so what
holds of those and goes over from parts to the whole holds of queries, of changes of facts, of the
bodies of rules however they ask, fail and handle failures, and of whole tasks.
-/

namespace RuleEngine

/-- Events that report neither a change of facts nor the course of an activation. -/
def Event.isReport : Event → Bool
  | definitionAdded .. | definitionRemoved .. | schemaError .. | guardError ..
  | actionErrorHandled .. | postConditionFailed .. | hookError .. | engineError ..
  | projectionError .. | queryStarted .. | queryCompleted .. => true
  | _ => false

/-- Events about support that is withdrawn. -/
def Event.isWithdrawal : Event → Bool
  | activationInvalidated .. | logicalRetracted .. => true
  | _ => false

/-- The change of a fact that an event publishes, as the task for it. -/
def Event.change? : Event → Option Task
  | factAsserted fact _ _ => some ⟨.asserted, fact⟩
  | factRetracted fact => some ⟨.retracted, fact⟩
  | _ => none

namespace EngineM

variable {ν : Type}

/-- A property goes over from parts to the whole, and holds of reports and of being caught in a
match. An operation may look at an engine in so far as the configuration makes no difference.
-/
structure HoldsOfReading (P : ∀ α : Type, EngineM ν α → Prop) : Prop where
  pure : ∀ {α : Type} (a : α), P α (Pure.pure a)
  bind : ∀ {α β : Type} {m : EngineM ν α} {f : α → EngineM ν β}, P α m → (∀ a, P β (f a)) →
    P β (m >>= f)
  look : ∀ {β : Type} {f : Engine ν → EngineM ν β}, (∀ e, P β (f e)) →
    (∀ e config, f { e with config } = f e) → P β (get >>= f)
  report : ∀ {event : Event}, event.isReport → P Unit (emit event)
  endless : P Unit endless

/-- A property holds also of the elementary changes of facts and definitions, among them those that
the activation `author` makes.
-/
structure HoldsOfEditing (author : Option ActivationId) (P : ∀ α : Type, EngineM ν α → Prop) : Prop
    extends HoldsOfReading P where
  note : ∀ n, P Unit (note n)
  registry : ∀ g : Registry → Registry, P Unit (modify fun e => { e with registry := g e.registry })
  store : ∀ r {origin : Origin}, (∀ id, origin = .logical id → author = some id) →
    P _ (Engine.storeFact r origin)
  retract : ∀ id, P _ (Engine.retract id)
  define : ∀ d, P _ (Engine.define d)
  undefine : ∀ id, P _ (Engine.undefine id)

/-- A property holds also of retractions and of what is tracked, with the events about it. -/
structure HoldsOfWithdrawing (P : ∀ α : Type, EngineM ν α → Prop) : Prop
    extends HoldsOfReading P where
  withdrawal : ∀ {event : Event}, event.isWithdrawal → P Unit (emit event)
  tracked : ∀ g : List Tracked → List Tracked,
    P Unit (modify fun e => { e with tracked := g e.tracked })
  retract : ∀ id, P _ (Engine.retract id)

/-- A property holds of everything that dealing with a task is made of. -/
structure HoldsOfWorking (P : ∀ α : Type, EngineM ν α → Prop) : Prop
    extends HoldsOfWithdrawing P where
  course : ∀ {event : Event}, event.change? = none → P Unit (emit event)
  issued : ∀ g : List Tracked → List Tracked,
    P Unit (modify fun e =>
      { e with tracked := g e.tracked, nextActivation := e.nextActivation + 1 })
  editing : ∀ author, HoldsOfEditing author P

end EngineM

-- --------------------------------------------------------------------------------------
-- Matching and queries
-- --------------------------------------------------------------------------------------

namespace EngineM.HoldsOfReading

open Engine

variable {ν : Type} {P : ∀ α : Type, EngineM ν α → Prop} (reading : HoldsOfReading P)

include reading

/-- By induction on the steps. -/
theorem reportFaults (definition : String) (steps : List JoinStep)
    : P _ (Engine.reportFaults definition steps) := by
  induction steps with
  | nil => exact reading.pure _
  | cons step rest ih =>
    cases step with
    | found m => exact ih
    | fault guard failure => exact reading.bind (reading.report rfl) fun _ => ih
    | endless => exact reading.bind reading.endless fun _ => ih

theorem endlessIf (caught : Bool) : P _ (EngineM.endlessIf caught) := by
  cases caught with
  | false => exact reading.pure _
  | true => exact reading.endless

theorem matchesFor (definition : String) (conditions : List Condition) (b : Bindings)
    (limit : Option Nat)
    : P _ (Engine.matchesFor definition conditions b limit) :=
  reading.look
    (fun _ => reading.bind (reading.reportFaults definition _) fun _ => reading.pure _)
    fun _ _ => rfl

/-- By induction on the fields. -/
theorem project (query : String) (b : Bindings) (fields : List (String × Expr)) (row : Record)
    : P _ (Engine.project query b fields row) := by
  induction fields generalizing row with
  | nil => exact reading.pure _
  | cons field rest ih =>
    obtain ⟨name, e⟩ := field
    unfold Engine.project
    cases projectField name e b with
    | ok v => exact ih _
    | error failure => exact reading.bind (reading.report rfl) fun _ => ih _

/-- By induction on the matches. -/
theorem projectAll (q : Query) (found : List Match) : P _ (Engine.projectAll q found) := by
  induction found with
  | nil => exact reading.pure _
  | cons m rest ih =>
    have others (row : Record) : P _ (do
        let rows ← Engine.projectAll q rest
        return row :: rows) :=
      reading.bind ih fun _ => reading.pure _
    unfold Engine.projectAll
    cases q.projection with
    | none => exact reading.bind (reading.pure _) others
    | some fields => exact reading.bind (reading.project _ _ _ _) others

theorem runQuery (id : String) (params : Bindings) (stopAfter : Option Nat)
    : P _ (Engine.runQuery id params stopAfter) := by
  refine reading.look (fun e => ?_) fun _ _ => rfl
  cases e.query? id with
  | none => exact reading.bind (reading.report rfl) fun _ => reading.pure _
  | some q =>
    exact reading.bind (reading.report rfl) fun _ =>
      reading.bind (reading.matchesFor _ _ _ _) fun _ =>
        reading.bind (reading.projectAll q _) fun _ =>
          reading.bind (reading.report rfl) fun _ => reading.pure _

/-- By induction on the conditions. -/
theorem checkPostConditions (c : Context) (index : Nat) (conditions : List Condition)
    : P _ (Engine.checkPostConditions c index conditions) := by
  induction conditions generalizing index with
  | nil => exact reading.pure _
  | cons condition rest ih =>
    refine reading.bind (reading.matchesFor _ _ _ _) fun found => ?_
    split
    · exact reading.bind (reading.report rfl) fun _ => ih _
    · exact ih _

/-- By induction on the rules. -/
theorem findActivations (rules : List (Rule ν)) : P _ (Engine.findActivations rules) := by
  induction rules with
  | nil => exact reading.pure _
  | cons r rest ih =>
    exact reading.bind (reading.matchesFor _ _ _ _) fun _ =>
      reading.bind ih fun _ => reading.pure _

end EngineM.HoldsOfReading

-- --------------------------------------------------------------------------------------
-- Changes of facts and the bodies of rules
-- --------------------------------------------------------------------------------------

namespace EngineM.HoldsOfEditing

variable {ν : Type} {P : ∀ α : Type, EngineM ν α → Prop}

section

variable {author : Option ActivationId} (editing : HoldsOfEditing author P)

include editing

theorem validate (r : Record) : P _ (Engine.validate r) := by
  refine editing.look (fun e => ?_) fun _ _ => rfl
  obtain ⟨result, registry⟩ := Engine.validateIn e.registry r
  refine editing.bind (editing.registry fun _ => registry) fun _ => ?_
  cases result with
  | error failure => exact editing.bind (editing.report rfl) fun _ => editing.pure _
  | ok r => exact editing.pure _

theorem insert (r : Record) {origin : Origin}
    (justified : ∀ id, origin = .logical id → author = some id)
    : P _ (Engine.insert r origin) := by
  refine editing.bind (editing.validate r) fun result => ?_
  cases result with
  | error failure => exact editing.pure _
  | ok r => exact editing.store r justified

theorem replace (id : FactId) (r : Record) : P _ (Engine.replace id r) := by
  refine editing.bind (editing.validate r) fun result => ?_
  cases result with
  | error failure => exact editing.pure _
  | ok r => exact editing.bind (editing.retract id) fun _ => editing.store r nofun

theorem modify (id : FactId) (changes : Record) : P _ (Engine.modify id changes) := by
  refine editing.look (fun e => ?_) fun _ _ => rfl
  cases e.store.fact? id with
  | none => exact editing.pure _
  | some fact => exact editing.replace id _

theorem update (id : FactId) (r : Record) : P _ (Engine.update id r) := by
  refine editing.look (fun e => ?_) fun _ _ => rfl
  cases e.store.fact? id with
  | none => exact editing.pure _
  | some fact => exact editing.replace id _

/-- By induction on the identities. -/
theorem retractAll (ids : List FactId) : P _ (Engine.retractAll ids) := by
  induction ids with
  | nil => exact editing.pure _
  | cons id rest ih =>
    exact editing.bind (editing.retract id) fun _ => editing.bind ih fun _ => editing.pure _

theorem retractMatching (kind : String) (p : Pattern) : P _ (Engine.retractMatching kind p) :=
  editing.look (fun _ => editing.bind (editing.endlessIf _) fun _ => editing.retractAll _)
    fun _ _ => rfl

end

section

variable {c : Context} (editing : HoldsOfEditing (some c.activation) P)

include editing

/-- By cases on the request, which is made for the activation that it is made in. -/
theorem perform {k : ReplyKind} (request : Request ν k) : P _ (request.perform c) := by
  cases request with
  | assert r => exact editing.insert r nofun
  | assertLogical r => exact editing.insert r fun _ same => by rw [Origin.logical.inj same]
  | retract id => exact editing.retract id
  | modify id changes => exact editing.modify id changes
  | update id r => exact editing.update id r
  | retractMatching kind p => exact editing.retractMatching kind p
  | addRule r => exact editing.define _
  | addQuery q => exact editing.define _
  | removeDefinition id => exact editing.undefine id
  | query id params stopAfter => exact editing.runQuery id params stopAfter
  | look => exact editing.look (fun _ => editing.pure _) fun _ _ => rfl

/-- By recursion on the program, if the property holds of what the program lets proceed. -/
theorem run {proceed : EngineM ν (Option Failure)} (inner : P _ proceed)
    : ∀ {wrapping : Bool} (p : Program ν wrapping), P _ (p.run c proceed)
  | _, .done => editing.pure _
  | _, .fail _ => editing.pure _
  | _, .note n next => editing.bind (editing.note n) fun _ => run inner next
  | _, .ask request next =>
    editing.bind (editing.perform request) fun reply => run inner (next reply)
  | _, .proceed next => editing.bind inner fun failure => run inner (next failure)

theorem execute (p : Program ν false) : P _ (p.execute c) := editing.run (editing.pure _) p

theorem act (r : Rule ν) : P _ (Engine.act r c) := by
  refine editing.bind (editing.execute _) fun outcome => ?_
  cases outcome with
  | none => exact editing.pure _
  | some failure =>
    dsimp only
    cases r.handler? failure.name with
    | none => exact editing.pure _
    | some handler => exact editing.bind (editing.report rfl) fun _ => editing.execute _

theorem proceed (r : Rule ν) : P _ (Engine.proceed r c) := by
  refine editing.bind (editing.act r) fun outcome => ?_
  split
  · exact editing.bind (editing.checkPostConditions c 0 _) fun _ => editing.pure _
  · exact editing.pure _

theorem wrapped (r : Rule ν) : P _ (Engine.wrapped r c) := by
  unfold Engine.wrapped
  cases r.around with
  | none => exact editing.proceed r
  | some around => exact editing.run (editing.proceed r) (around c)

theorem runAfter (r : Rule ν) (outcome : Option Failure) : P _ (Engine.runAfter r c outcome) := by
  unfold Engine.runAfter
  cases r.after with
  | none => exact editing.pure _
  | some after =>
    refine editing.bind (editing.execute _) fun left => ?_
    cases left with
    | none => exact editing.pure _
    | some failure => exact editing.report rfl

theorem runBody (r : Rule ν) : P _ (Engine.runBody r c) := by
  refine editing.bind (editing.wrapped r) fun outcome =>
    editing.bind (editing.runAfter r outcome) fun _ => ?_
  cases outcome with
  | none => exact editing.pure _
  | some failure => exact editing.bind (editing.report rfl) fun _ => editing.pure _

end

end EngineM.HoldsOfEditing

-- --------------------------------------------------------------------------------------
-- The withdrawal of support
-- --------------------------------------------------------------------------------------

namespace EngineM.HoldsOfWithdrawing

variable {ν : Type} {P : ∀ α : Type, EngineM ν α → Prop} (withdrawing : HoldsOfWithdrawing P)

include withdrawing

theorem retractJustified (activation : ActivationId) (fact : FactId)
    : P _ (Engine.retractJustified activation fact) := by
  refine withdrawing.look (fun e => ?_) fun _ _ => rfl
  split
  · refine withdrawing.bind (withdrawing.retract fact) fun taken => ?_
    split
    · exact withdrawing.withdrawal rfl
    · exact withdrawing.pure _
  · exact withdrawing.pure _

/-- By induction on the facts. -/
theorem retractAllJustified (activation : ActivationId) (ids : FactIds)
    : P _ (Engine.retractAllJustified activation ids) := by
  induction ids with
  | nil => exact withdrawing.pure _
  | cons fact rest ih =>
    exact withdrawing.bind (withdrawing.retractJustified activation fact) fun _ => ih

theorem takeBack (cause : FactId) (t : Tracked) : P _ (Engine.takeBack cause t) :=
  withdrawing.bind (withdrawing.tracked _) fun _ =>
    withdrawing.bind (withdrawing.withdrawal rfl) fun _ =>
      withdrawing.retractAllJustified t.id t.produced

/-- By induction on the activations. -/
theorem takeBackAll (cause : FactId) (ts : List Tracked)
    : P _ (Engine.takeBackAll cause ts) := by
  induction ts with
  | nil => exact withdrawing.pure _
  | cons t rest ih => exact withdrawing.bind (withdrawing.takeBack cause t) fun _ => ih

theorem maintainSupport (gone : FactId) : P _ (Engine.maintainSupport gone) :=
  withdrawing.look (fun _ => withdrawing.takeBackAll gone _) fun _ _ => rfl

end EngineM.HoldsOfWithdrawing

-- --------------------------------------------------------------------------------------
-- Tasks
-- --------------------------------------------------------------------------------------

namespace EngineM.HoldsOfWorking

variable {ν : Type} {P : ∀ α : Type, EngineM ν α → Prop} (working : HoldsOfWorking P)

include working

theorem guardsPass (a : Activation ν) : P _ (Engine.guardsPass a) := by
  unfold Engine.guardsPass
  cases checkGuards a.bindings a.rule.guards with
  | passed | failed => exact working.bind (working.course rfl) fun _ => working.pure _
  | fault guard failure =>
    exact working.bind (working.course rfl) fun _ =>
      working.bind (working.course rfl) fun _ => working.pure _

theorem track (a : Activation ν) : P _ (Engine.track a) := by
  refine working.look (fun e => ?_) fun _ _ => rfl
  let added : Tracked := ⟨⟨e.nextActivation⟩, a.rule.id, FactIds.ofList a.consumed, []⟩
  exact working.bind (working.issued (· ++ [added])) fun _ => working.pure _

theorem fire (a : Activation ν) : P _ (Engine.fire a) :=
  working.bind (working.track a) fun _ =>
    working.bind ((working.editing _).runBody a.rule) fun _ =>
      working.bind (working.tracked _) fun _ =>
        working.bind (working.course rfl) fun _ => working.pure _

/-- A task that may fire. -/
theorem process (t : Task) : P _ (Engine.process t true) := by
  unfold Engine.process
  cases t.change with
  | retracted => exact working.bind (working.maintainSupport _) fun _ => working.pure _
  | asserted =>
    refine working.look (fun e => working.bind (working.findActivations _) fun candidates =>
      working.bind (working.course rfl) fun _ => ?_) fun _ _ => rfl
    cases Activation.resolve candidates with
    | none => exact working.pure _
    | some a =>
      refine working.bind (working.course rfl) fun _ =>
        working.bind (working.guardsPass a) fun passed => ?_
      cases passed with
      | false => exact working.pure _
      | true => exact working.bind (working.fire a) fun _ => working.pure _

end EngineM.HoldsOfWorking

end RuleEngine
