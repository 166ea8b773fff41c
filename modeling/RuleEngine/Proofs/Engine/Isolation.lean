import RuleEngine.Proofs.Engine.Changes
import RuleEngine.Proofs.Engine.QueryPaths
import RuleEngine.Proofs.Engine.Selection
import RuleEngine.Proofs.Store.Lifetime

/-! Isolation of kinds. A join asks for the facts of the kinds that its conditions name and for no
others. So stores that hold the same facts of these kinds give it the same matches, however they
came about, and what is done to facts of other kinds shows neither in the rows of a query nor in the
activations of a rule.
-/

namespace RuleEngine

-- --------------------------------------------------------------------------------------
-- Stores that agree on kinds
-- --------------------------------------------------------------------------------------

/-- A join has the same course wherever the facts of the kinds of its conditions are the same, by
induction on the conditions.
-/
theorem Join.steps_congr {facts facts' : String → List Fact} {conditions : List Condition}
    (same : ∀ c ∈ conditions, facts c.kind = facts' c.kind) (b : Bindings)
    : steps facts conditions b = steps facts' conditions b := by
  induction conditions generalizing b with
  | nil => rfl
  | cons c rest ih =>
    have here : facts c.kind = facts' c.kind := same c List.mem_cons_self
    have onward := ih fun c member => same c (List.mem_cons_of_mem _ member)
    cases c with
    | pattern c =>
      simp only [Condition.kind] at here
      simp only [steps, here, funext onward]
    | accumulate c =>
      simp only [Condition.kind] at here
      simp only [steps, here, funext onward]
    | lacks c =>
      simp only [Condition.kind] at here
      simp only [steps, here, onward]

namespace Store

/-- Two stores hold the same facts of some kinds: facts with the same identities and fields. -/
def AgreeOn (kinds : List String) (s s' : Store) : Prop :=
  ∀ f : Fact, f.kind ∈ kinds → (f ∈ s.facts ↔ f ∈ s'.facts)

namespace AgreeOn

variable {kinds : List String} {s s' s'' : Store}

theorem refl (kinds : List String) (s : Store) : AgreeOn kinds s s := fun _ _ => .rfl

theorem trans (first : AgreeOn kinds s s') (second : AgreeOn kinds s' s'')
    : AgreeOn kinds s s'' :=
  fun f named => (first f named).trans (second f named)

/-- The facts of some kinds stay if all of their entries are kept and none is added. -/
theorem of_entries {keeps : Entry → Bool} {added : List Entry}
    (entries : s'.entries = s.entries.filter keeps ++ added)
    (kept : ∀ entry ∈ s.entries, entry.fact.kind ∈ kinds → keeps entry)
    (others : ∀ entry ∈ added, entry.fact.kind ∉ kinds)
    : AgreeOn kinds s s' := by
  intro f named
  simp only [facts, entries, List.mem_map, List.mem_append, List.mem_filter]
  constructor
  · rintro ⟨entry, member, rfl⟩
    exact ⟨entry, .inl ⟨member, kept entry member named⟩, rfl⟩
  · rintro ⟨entry, ⟨member, -⟩ | new, rfl⟩
    · exact ⟨entry, member, rfl⟩
    · exact absurd named (others entry new)

/-- Coherent stores that agree on a kind list its facts in the same way: the lists have the same
facts, in the order of their identities.
-/
theorem factsOfKind_eq (agree : AgreeOn kinds s s') (coherent : s.Coherent)
    (coherent' : s'.Coherent) {kind : String} (named : kind ∈ kinds)
    : s.factsOfKind kind = s'.factsOfKind kind := by
  have ascending := coherent.ascending_factsOfKind kind
  have ascending' := coherent'.ascending_factsOfKind kind
  have distinct {facts : List Fact} (ascending : facts.Pairwise (·.id.number < ·.id.number))
      : facts.Nodup :=
    ascending.imp fun below same => absurd (same ▸ below) (Nat.lt_irrefl _)
  have perm : (s.factsOfKind kind).Perm (s'.factsOfKind kind) := by
    refine (List.perm_ext_iff_of_nodup (distinct ascending) (distinct ascending')).mpr fun f => ?_
    rw [coherent.mem_factsOfKind, coherent'.mem_factsOfKind]
    exact and_congr_left fun same => agree f (same ▸ named)
  exact perm.eq_of_pairwise (fun _ _ _ _ below above => absurd above (Nat.lt_asymm below))
    ascending ascending'

/-- Coherent stores that agree on the kinds of conditions have the same matches. -/
theorem join_eq {conditions : List Condition}
    (agree : AgreeOn (conditions.map (·.kind)) s s') (coherent : s.Coherent)
    (coherent' : s'.Coherent) (b : Bindings)
    : s.join conditions b = s'.join conditions b := by
  have same := Join.steps_congr
    (fun c member => agree.factsOfKind_eq coherent coherent' (List.mem_map_of_mem member)) b
  rw [join, join, same]

end AgreeOn

/-- A record names none of some kinds. -/
def NamesNone (kinds : List String) (r : Record) : Prop :=
  ∀ kind ∈ kinds, r.get? Fact.kindField ≠ some (.string kind)

theorem NamesNone.not_mem {kinds : List String} {r : Record} {kind : String}
    (none : NamesNone kinds r) (named : kindOf? r = some kind)
    : kind ∉ kinds :=
  fun member => none kind member (kindOf?_eq_some_iff.mp named).1

/-- What is stored under an identity, if anything, is a fact of another kind than some. -/
def OtherAt (kinds : List String) (s : Store) (id : FactId) : Prop :=
  ∀ f ∈ s.facts, f.id = id → f.kind ∉ kinds

/-- Under the identity of a fact of another kind no other fact is stored. -/
theorem Coherent.otherAt {kinds : List String} {s : Store} (coherent : s.Coherent) {f : Fact}
    (stored : f ∈ s.facts) (other : f.kind ∉ kinds)
    : s.OtherAt kinds f.id := by
  intro f' stored' same
  obtain ⟨entry, member, rfl⟩ := List.mem_map.mp stored
  obtain ⟨entry', member', rfl⟩ := List.mem_map.mp stored'
  rwa [coherent.eq_of_id_eq member' member same]

/-- A fact of another kind stays one under changes that name none of some kinds, because its fields
name its own kind.
-/
theorem Built.not_mem_of_overlay {kinds : List String} {s : Store} (built : s.Built) {f : Fact}
    (stored : f ∈ s.facts) (other : f.kind ∉ kinds) {changes : Record}
    (none : NamesNone kinds changes) {kind : String}
    (named : kindOf? (f.fields.overlay changes) = some kind)
    : kind ∉ kinds := by
  obtain ⟨entry, member, rfl⟩ := List.mem_map.mp stored
  have own := (kindOf?_eq_some_iff.mp (built.named.kind entry member)).1
  have given := (kindOf?_eq_some_iff.mp named).1
  rw [Fields.get?_overlay, own] at given
  cases changed : changes.get? Fact.kindField with
  | none =>
    rw [changed] at given
    obtain rfl := Value.string.inj (Option.some.inj given)
    exact other
  | some v =>
    rw [changed] at given
    obtain rfl := Option.some.inj given
    exact fun member => none kind member changed

end Store

-- --------------------------------------------------------------------------------------
-- Stores of histories
-- --------------------------------------------------------------------------------------

section

variable {ν : Type}

/-- Edits change a store only by asserting and taking out. -/
theorem Edit.built {author : Option ActivationId} {e e' : Engine ν} {out : List (Output ν)}
    (edit : Edit author e out e') (built : e.store.Built)
    : e'.store.Built := by
  cases edit with
  | report | note | registry | define | undefine => exact built
  | assert asserted _ => exact built.assert asserted
  | retract retracted => exact built.retract retracted

/-- The store of an engine comes about by asserting and taking out, by induction on its history. -/
theorem History.built {e : Engine ν} {out : List (Output ν)} {done : List Task}
    (history : History e out done)
    : e.store.Built := by
  induction history with
  | created | reset => exact .empty
  | operated _ op ih => exact (op.perform_editsBy _).invariant Edit.built ih
  | processed _ _ dealt ih =>
    have allows : AllowsSilence fun (e : Engine ν) _ e' => e.store.Built → e'.store.Built :=
      { refl := fun _ => id
        trans := fun first rest => rest ∘ first
        silent := fun _ store _ _ built => store ▸ built }
    exact Engine.process_obeys allows Edit.built dealt ih
  | halted _ _ dealt ih =>
    obtain ⟨rfl, -⟩ := Engine.process_halted dealt
    exact ih

-- --------------------------------------------------------------------------------------
-- Operations on other kinds
-- --------------------------------------------------------------------------------------

/-- An operation asserts, takes out or changes facts of other kinds than some. A fact that is
changed is not given one of these kinds.
-/
inductive Operation.OnOthers (kinds : List String) (e : Engine ν) : Operation ν → Prop where
  | assert {r : Record} (none : Store.NamesNone kinds r) : OnOthers kinds e (.assert r)
  | retract {id : FactId} (other : e.store.OtherAt kinds id) : OnOthers kinds e (.retract id)
  | retractMatching {kind : String} {p : Pattern} (other : kind ∉ kinds)
    : OnOthers kinds e (.retractMatching kind p)
  | modify {id : FactId} {changes : Record} (other : e.store.OtherAt kinds id)
    (none : Store.NamesNone kinds changes)
    : OnOthers kinds e (.modify id changes)
  | update {id : FactId} {r : Record} (other : e.store.OtherAt kinds id)
    (none : Store.NamesNone kinds r)
    : OnOthers kinds e (.update id r)

/-- Operations on facts of other kinds lead from one engine to another, any number of them and in
any order.
-/
inductive Engine.OthersChanged (kinds : List String) : Engine ν → Engine ν → Prop where
  | none (e : Engine ν) : OthersChanged kinds e e
  | cons {e e' : Engine ν} {op : Operation ν} (onOthers : op.OnOthers kinds e)
    (rest : OthersChanged kinds (op.perform.run e).engine e')
    : OthersChanged kinds e e'

namespace Engine

open Store (AgreeOn)

/-- A record that is stored after validation named the kind of the fact. -/
theorem kindOf?_of_changed {e e' : Engine ν} {registry : Registry} {r r' : Record}
    {origin : Origin} {gone : Option Fact} {f : Fact}
    (valid : validateIn e.registry r = (.ok r', registry))
    (changed : Changed e registry r' origin gone f e')
    : Store.kindOf? r = some f.kind := by
  unfold validateIn at valid
  split at valid
  · cases valid
  · rename_i kind named
    have kept := Registry.kindOf?_validate (congrArg Prod.fst valid) named
    have same := (Store.kindOf?_eq_some_iff.mp kept).1.symm.trans changed.kind
    obtain rfl : kind = f.kind := Value.string.inj (Option.some.inj same)
    exact named

/-- What is stored after a fact is taken out was stored before. -/
theorem facts_retract_subset (id : FactId) (e : Engine ν)
    : ((retract id).run e).engine.store.facts ⊆ e.store.facts := by
  cases retracted : e.store.retract? id with
  | none => simp [retract, retracted]
  | some taken =>
    obtain ⟨entry, store⟩ := taken
    obtain ⟨-, -, rfl⟩ := Store.retract?_eq_some retracted
    simpa [retract, retracted, Store.facts] using List.map_subset _ (List.filter_subset_self _)

/-- The facts of some kinds and the definitions stay. -/
structure Keeps (kinds : List String) (e e' : Engine ν) : Prop where
  facts : AgreeOn kinds e.store e'.store
  definitions : e'.definitions = e.definitions

namespace Keeps

variable {kinds : List String} {e e' e'' : Engine ν}

theorem refl (kinds : List String) (e : Engine ν) : Keeps kinds e e := ⟨.refl kinds e.store, rfl⟩

theorem trans (first : Keeps kinds e e') (second : Keeps kinds e' e'') : Keeps kinds e e'' :=
  ⟨first.facts.trans second.facts, second.definitions.trans first.definitions⟩

/-- Storing a record of another kind, in the place of a fact of another kind if of any, keeps the
facts of some kinds, whether it succeeds or not.
-/
theorem of_attempt {r : Record} {origin : Origin} {gone : Option Fact}
    {ran : Ran ν (Except Failure Fact)} (attempt : AllOrNothing e r origin gone ran)
    (replaced : ∀ old ∈ gone, e.store.OtherAt kinds old.id)
    (other : ∀ kind, Store.kindOf? r = some kind → kind ∉ kinds)
    : Keeps kinds e ran.engine := by
  cases attempt with
  | refused => exact ⟨.refl kinds e.store, rfl⟩
  | @stored r' registry f e' out valid changed =>
    refine ⟨.of_entries changed.entries (fun entry member named => ?_) (fun entry last => ?_),
      changed.definitions⟩
    · cases gone with
      | none => rfl
      | some old =>
        refine bne_iff_ne.mpr fun same => ?_
        exact replaced old rfl entry.fact (List.mem_map_of_mem member) same named
    · obtain rfl := List.mem_singleton.mp last
      exact other _ (kindOf?_of_changed valid changed)

theorem retract {id : FactId} (other : e.store.OtherAt kinds id)
    : Keeps kinds e ((retract id).run e).engine := by
  cases retracted : e.store.retract? id with
  | none => simpa [Engine.retract, retracted] using refl kinds e
  | some taken =>
    obtain ⟨entry, store⟩ := taken
    obtain ⟨-, -, rfl⟩ := Store.retract?_eq_some retracted
    simp only [Engine.retract, EngineM.run_bind, EngineM.run_get, retracted, EngineM.run_modify,
      EngineM.run_emit, EngineM.run_schedule, EngineM.run_pure]
    refine ⟨.of_entries (List.append_nil _).symm (fun entry member named => ?_) (by simp), rfl⟩
    exact bne_iff_ne.mpr fun same => other entry.fact (List.mem_map_of_mem member) same named

/-- By induction on the identities. -/
theorem retractAll {ids : List FactId} (other : ∀ id ∈ ids, e.store.OtherAt kinds id)
    : Keeps kinds e ((retractAll ids).run e).engine := by
  induction ids generalizing e with
  | nil => exact refl kinds e
  | cons id rest ih =>
    have first := retract (other id List.mem_cons_self)
    have onward := ih (e := ((Engine.retract id).run e).engine) fun id' member f stored same =>
      other id' (List.mem_cons_of_mem _ member) f (facts_retract_subset id e stored) same
    simpa [Engine.retractAll] using first.trans onward

/-- Replacing a fact of another kind by a record of another kind. -/
theorem replace {id : FactId} {old : Fact} {r : Record} (coherent : e.store.Coherent)
    (found : e.store.fact? id = some old) (stored : e.store.OtherAt kinds id)
    (other : ∀ kind, Store.kindOf? r = some kind → kind ∉ kinds)
    : Keeps kinds e ((Engine.replace id r).run e).engine := by
  refine of_attempt (replace_allOrNothing coherent found r) (fun f same => ?_) other
  obtain rfl := Option.some.inj same
  exact (Store.fact?_eq_some found).2 ▸ stored

/-- An operation on facts of other kinds keeps those of some kinds, by cases on the operation. -/
theorem operation {op : Operation ν} (onOthers : op.OnOthers kinds e) (built : e.store.Built)
    : Keeps kinds e (op.perform.run e).engine := by
  have coherent := built.coherent
  cases onOthers with
  | @assert r none =>
    exact of_attempt (insert_allOrNothing coherent r .stated) nofun fun kind => none.not_mem
  | retract other => exact retract other
  | @retractMatching kind p other =>
    let matching := (e.store.factsOfKind kind).filter (p.accepts · .empty)
    have others : ∀ id ∈ matching.map (·.id), e.store.OtherAt kinds id := by
      intro id matched
      obtain ⟨f, filed, rfl⟩ := List.mem_map.mp matched
      obtain ⟨stored, rfl⟩ := coherent.mem_factsOfKind.mp (List.mem_filter.mp filed).1
      exact coherent.otherAt stored other
    simpa [Operation.perform, Engine.retractMatching] using retractAll others
  | @modify id changes other none =>
    cases found : e.store.fact? id with
    | none => simpa [Operation.perform, modify, found] using refl kinds e
    | some old =>
      obtain ⟨stored, here⟩ := Store.fact?_eq_some found
      have kept := replace coherent found other (r := old.fields.overlay changes)
        fun kind named => built.not_mem_of_overlay stored (other old stored here) none named
      simpa [Operation.perform, modify, found] using kept
  | @update id r other none =>
    cases found : e.store.fact? id with
    | none => simpa [Operation.perform, update, found] using refl kinds e
    | some old =>
      obtain ⟨stored, here⟩ := Store.fact?_eq_some found
      have kept := replace coherent found other (r := if r.contains Fact.kindField then r
        else r.insert Fact.kindField (.string old.kind)) fun kind named => by
          split at named
          · exact none.not_mem named
          · rw [Store.kindOf?_eq_some_iff, Fields.get?_insert, if_pos rfl] at named
            obtain rfl := Value.string.inj (Option.some.inj named.1)
            exact other old stored here
      simpa [Operation.perform, update, found] using kept

/-- By induction on the operations. -/
theorem othersChanged {later : Engine ν} (changed : OthersChanged kinds e later)
    (built : e.store.Built)
    : Keeps kinds e later ∧ later.store.Built := by
  induction changed with
  | none e => exact ⟨refl kinds e, built⟩
  | @cons e e' op onOthers _ ih =>
    have first := operation onOthers built
    obtain ⟨rest, built'⟩ := ih ((op.perform_editsBy e).invariant Edit.built built)
    exact ⟨first.trans rest, built'⟩

end Keeps

section

variable {kinds : List String} {e later : Engine ν}

theorem OthersChanged.join_eq {conditions : List Condition}
    (changed : OthersChanged (conditions.map (·.kind)) e later) (built : e.store.Built)
    (b : Bindings)
    : later.store.join conditions b = e.store.join conditions b := by
  obtain ⟨kept, built'⟩ := Keeps.othersChanged changed built
  exact (kept.facts.join_eq built.coherent built'.coherent b).symm

theorem OthersChanged.query?_eq (changed : OthersChanged kinds e later) (built : e.store.Built)
    (id : String)
    : later.query? id = e.query? id := by
  simp only [query?, (Keeps.othersChanged changed built).1.definitions]

end

/-- Kinds are isolated from one another. In any two engines that hold the same facts of the kinds
that conditions name, the conditions have the same matches. So, while facts of other kinds are
asserted, taken out and changed, however often and in any order, and no fact is given one of the
kinds, the rows of a query and the activations of a rule stay the same.
-/
theorem kinds_isolated {e : Engine ν} {out : List (Output ν)} {done : List Task}
    (history : History e out done)
    : (∀ (e' : Engine ν) out' done', History e' out' done' → ∀ conditions b,
          AgreeOn (conditions.map (·.kind)) e.store e'.store →
          e'.store.join conditions b = e.store.join conditions b)
      ∧ (∀ id q later, e.query? id = some q →
          OthersChanged (q.conditions.map (·.kind)) e later → ∀ params,
            ((query id params).run later).result = ((query id params).run e).result
            ∧ ((queryFirst id params).run later).result = ((queryFirst id params).run e).result
            ∧ ((queryExists id params).run later).result = ((queryExists id params).run e).result
            ∧ ((queryCount id params).run later).result = ((queryCount id params).run e).result)
      ∧ ∀ (r : Rule ν) later, OthersChanged (r.conditions.map (·.kind)) e later →
          later.activationsOf r = e.activationsOf r := by
  have built := history.built
  refine ⟨fun e' out' done' history' conditions b agree =>
      (agree.join_eq built.coherent history'.built.coherent b).symm,
    fun id q later found changed params => ?_, fun r later changed => ?_⟩
  · have found' : later.query? id = some q := (changed.query?_eq built id).trans found
    have rows : q.rowsIn later.store params = q.rowsIn e.store params := by
      rw [Query.rowsIn, Query.rowsIn, changed.join_eq built]
    have all : ((query id params).run later).result = ((query id params).run e).result := by
      rw [result_query found, result_query found', rows]
    have first : ((queryFirst id params).run later).result
        = ((queryFirst id params).run e).result := by
      rw [result_queryFirst found, result_queryFirst found', rows]
    refine ⟨all, first, ?_, ?_⟩
    · simp [queryExists, first]
    · simp [queryCount, all]
  · rw [activationsOf, activationsOf, changed.join_eq built]

end Engine

end

namespace Sample

open Engine

/-- An engine with a reading, a place and the query for the levels of readings. -/
def surveyed : Ran Unit Unit :=
  EngineM.run
    (do
      (Operation.define (.query levels)).perform
      (Operation.assert (levelOf "Reading" "low")).perform
      (Operation.assert (levelOf "Place" "low")).perform)
    (.ofConfig {})

theorem surveyed_history : History surveyed.engine surveyed.output [] := by
  have defined := (@History.created Unit {}).operated (.define (.query levels))
  have read := defined.operated (.assert (levelOf "Reading" "low"))
  exact read.operated (.assert (levelOf "Place" "low"))

/-- The row of a reading whose level is low. -/
def lowRow : Record := .ofList [("?a", .string "low")]

/-- A place that is changed into a reading shows in the levels of readings. -/
theorem moved_place_shows
    : ∃ f, History surveyed.engine surveyed.output []
        ∧ surveyed.engine.store.fact? ⟨2⟩ = some f
        ∧ f.kind ∉ levels.conditions.map (·.kind)
        ∧ surveyed.engine.query? "levels" = some levels
        ∧ ((query "levels" .empty).run surveyed.engine).result = .ok [lowRow]
        ∧ ((query "levels" .empty).run
            ((modify ⟨2⟩ (recordOf "Reading")).run surveyed.engine).engine).result
          = .ok [lowRow, lowRow] :=
  ⟨_, surveyed_history, rfl, by decide, rfl, rfl, rfl⟩

/-- The engine after one more place was stated. -/
def extended : Engine Unit :=
  ((Operation.assert (levelOf "Place" "low")).perform.run surveyed.engine).engine

/-- The engine after the level of the first place was changed as well. -/
def raised : Engine Unit :=
  ((Operation.modify ⟨2⟩ (.ofList [("level", .string "high")])).perform.run extended).engine

/-- The engine after the other place was taken out again. -/
def resurveyed : Engine Unit := ((Operation.retract ⟨3⟩).perform.run raised).engine

theorem resurveyed_of_others {kinds : List String} (other : "Place" ∉ kinds)
    : OthersChanged kinds surveyed.engine resurveyed := by
  let place (id : Nat) : Fact := .ofRecord ⟨id⟩ "Place" (levelOf "Place" "low")
  have toExtended := surveyed_history.operated (.assert (levelOf "Place" "low"))
  have toRaised := toExtended.operated (.modify ⟨2⟩ (.ofList [("level", .string "high")]))
  have names : Store.NamesNone kinds (levelOf "Place" "low") := by
    intro kind member named
    obtain rfl : "Place" = kind := Value.string.inj (Option.some.inj named)
    exact other member
  have first : place 2 ∈ extended.store.facts := .tail _ (.head _)
  have last : place 3 ∈ raised.store.facts := .tail _ (.head _)
  have noKind : Store.NamesNone kinds (.ofList [("level", .string "high")]) := nofun
  exact .cons (.assert names)
    (.cons (.modify (toExtended.built.coherent.otherAt first other) noKind)
      (.cons (.retract (toRaised.built.coherent.otherAt last other)) (.none _)))

/-- What is done to places shows neither in the levels of readings nor in the alarms that readings
set off, and an engine without places and queries has the same matches.
-/
theorem surveyed_isolated
    : ((Operation.assert (levelOf "Reading" "low")).perform.run
          (.ofConfig {} : Engine Unit)).engine.store.join levels.conditions .empty
        = surveyed.engine.store.join levels.conditions .empty
      ∧ ((query "levels" .empty).run resurveyed).result = .ok [lowRow]
      ∧ resurveyed.activationsOf (relay "alarm" "Reading" "Alarm")
        = surveyed.engine.activationsOf (relay "alarm" "Reading" "Alarm") := by
  obtain ⟨joins, queries, activations⟩ := kinds_isolated surveyed_history
  have read := (@History.created Unit {}).operated (.assert (levelOf "Reading" "low"))
  refine ⟨joins _ _ _ read _ _ ?_, ?_, activations _ _ (resurveyed_of_others (by decide))⟩
  · intro f named
    let reading : Fact := .ofRecord ⟨1⟩ "Reading" (levelOf "Reading" "low")
    let place : Fact := .ofRecord ⟨2⟩ "Place" (levelOf "Place" "low")
    have notPlace : f ≠ place := by
      rintro rfl
      revert named
      decide
    show f ∈ [reading, place] ↔ f ∈ [reading]
    rw [List.mem_pair, List.mem_singleton, or_iff_left notPlace]
  · rw [(queries "levels" levels _ rfl (resurveyed_of_others (by decide)) .empty).1]
    rfl

end Sample

end RuleEngine
