import Mathlib.Logic.ExistsUnique
import RuleEngine.Proofs.Engine.Definitions
import RuleEngine.Proofs.Engine.Support
import RuleEngine.Proofs.Join.Tuples

/-! Which activation a task for an asserted fact selects: of the rules that have a complete match
the first with the highest salience, and of its matches the one that consumes the least identities.
It fires if the guards of its rule hold, and otherwise nothing does.
-/

namespace RuleEngine

/-- The activation that output reports as selected, by its rule and its bindings. -/
def Output.selected? {ν : Type} : Output ν → Option (String × Bindings)
  | event (.activationSelected rule b) => some (rule, b)
  | _ => none

/-- The activation that output reports as fired. -/
def Output.firing? {ν : Type} : Output ν → Option ActivationId
  | event (.activationFired id _ _) => some id
  | _ => none

/-- Output that reports neither that an activation is selected nor that one is fired. -/
def Output.IsAside {ν : Type} (o : Output ν) : Prop := o.selected? = none ∧ o.firing? = none

theorem Output.isAside_of_isReport {ν : Type} {o : Output ν} (report : o.isReport) : o.IsAside := by
  cases o with
  | event e => cases e <;> first | exact ⟨rfl, rfl⟩ | cases report
  | note | scheduled | endless => exact ⟨rfl, rfl⟩

theorem exists_of_flatMap_eq_append_cons {α β : Type} {f : α → List β} {l : List α}
    {before after : List β} {b : β} (same : l.flatMap f = before ++ b :: after)
    : ∃ earlier a later inner outer, l = earlier ++ a :: later ∧ f a = inner ++ b :: outer
        ∧ before = earlier.flatMap f ++ inner ∧ after = outer ++ later.flatMap f := by
  induction l generalizing before with
  | nil => simp at same
  | cons first rest ih =>
    rw [List.flatMap_cons] at same
    rcases List.append_eq_append_iff.mp same with ⟨more, rfl, tail⟩ | ⟨more, head, tail⟩
    · obtain ⟨earlier, a, later, inner, outer, rfl, here, rfl, rfl⟩ := ih tail
      exact ⟨first :: earlier, a, later, inner, outer, rfl, here, by simp, rfl⟩
    · cases more with
      | nil =>
        have begins : rest.flatMap f = [] ++ b :: after := by simpa using tail.symm
        obtain ⟨earlier, a, later, inner, outer, rfl, here, empty, rfl⟩ := ih begins
        refine ⟨first :: earlier, a, later, inner, outer, rfl, here, ?_, rfl⟩
        simp only [List.append_nil] at head
        rw [List.flatMap_cons, List.append_assoc, ← empty, head, List.append_nil]
      | cons c outer =>
        obtain ⟨rfl, rfl⟩ := List.cons.inj tail
        exact ⟨[], first, rest, before, outer, rfl, head, rfl, rfl⟩

/-- What an operation puts out before it is caught in a match that never ends, if it is. -/
def Ran.reached {ν α : Type} (ran : Ran ν α) : List (Output ν) :=
  ran.output.takeWhile (!·.isEndless)

/-- What stands behind a match that never ends is not reached. -/
theorem Ran.mem_of_mem_reached {ν α : Type} {ran : Ran ν α} {before after : List (Output ν)}
    (split : ran.output = before ++ after) (caught : ∃ o ∈ before, o.isEndless = true)
    {o : Output ν} (member : o ∈ ran.reached)
    : o ∈ before := by
  obtain ⟨mark, marked, endless⟩ := caught
  rw [reached, split, List.takeWhile_append] at member
  split at member
  · rename_i whole
    rw [← (List.takeWhile_prefix _).eq_of_length whole] at marked
    simpa [endless] using List.all_eq_true.mp (List.all_takeWhile ..) mark marked
  · exact (List.takeWhile_prefix _).subset member

namespace Engine

open EngineM

variable {ν : Type}

/-- A rule has a match under which stored facts meet all its conditions. -/
def CompleteMatch (e : Engine ν) (r : Rule ν) (m : Match) : Prop :=
  ∃ tuple, e.store.Meets r.conditions .empty tuple m.bindings ∧ m.consumed = tuple.map (·.id)

/-- An activation is the one to select. Rules are ordered as they are defined. -/
structure Selects (e : Engine ν) (a : Activation ν) : Prop where
  complete : e.CompleteMatch a.rule ⟨a.bindings, a.consumed⟩
  /-- No other rule with a match has more salience, and no earlier one has as much. -/
  foremost : ∃ before after, e.rules = before ++ a.rule :: after
    ∧ (∀ r ∈ before, (∃ m, e.CompleteMatch r m) → r.salience < a.rule.salience)
    ∧ ∀ r ∈ after, (∃ m, e.CompleteMatch r m) → r.salience ≤ a.rule.salience
  /-- Of the matches of the rule it is the least in the lexicographic order of identities. -/
  least : ∀ m, e.CompleteMatch a.rule m →
    m = ⟨a.bindings, a.consumed⟩ ∨ Match.Before ⟨a.bindings, a.consumed⟩ m

/-- Which activation is to be selected does not depend on the agenda. -/
theorem selects_with_agenda_iff {e : Engine ν} {agenda : Agenda} {a : Activation ν}
    : ({ e with agenda } : Engine ν).Selects a ↔ e.Selects a :=
  ⟨fun ⟨complete, foremost, least⟩ => ⟨complete, foremost, least⟩,
    fun ⟨complete, foremost, least⟩ => ⟨complete, foremost, least⟩⟩

/-- The activations of a rule, in the order of the join. -/
def activationsOf (e : Engine ν) (r : Rule ν) : List (Activation ν) :=
  (e.store.join r.conditions .empty).map fun m => ⟨r, m.bindings, m.consumed⟩

/-- The activations of all rules, rule by rule. -/
def candidates (e : Engine ν) : List (Activation ν) := e.rules.flatMap e.activationsOf

/-- By induction on the rules. -/
theorem result_findActivations (rules : List (Rule ν)) (e : Engine ν)
    : ((findActivations rules).run e).result = rules.flatMap e.activationsOf := by
  induction rules with
  | nil => rfl
  | cons r rest ih =>
    obtain ⟨same, -⟩ := Observes.reading.matchesFor r.id r.conditions .empty none e
    simp [findActivations, same, ih, result_matchesFor, activationsOf]

/-- The activations of a rule are its complete matches. -/
theorem mem_activationsOf_iff {e : Engine ν} (coherent : e.store.Coherent) {r : Rule ν}
    {a : Activation ν}
    : a ∈ e.activationsOf r ↔ a.rule = r ∧ e.CompleteMatch r ⟨a.bindings, a.consumed⟩ := by
  refine List.mem_map.trans ⟨?_, ?_⟩
  · rintro ⟨m, found, rfl⟩
    exact ⟨rfl, coherent.mem_join_iff.mp found⟩
  · rintro ⟨rfl, complete⟩
    exact ⟨⟨a.bindings, a.consumed⟩, coherent.mem_join_iff.mpr complete, rfl⟩

/-- The first activation of a rule is the least. -/
theorem least_of_activationsOf {e : Engine ν} (coherent : e.store.Coherent) {r : Rule ν}
    {a : Activation ν} {others : List (Activation ν)} (first : e.activationsOf r = a :: others)
    {m : Match} (complete : e.CompleteMatch r m)
    : m = ⟨a.bindings, a.consumed⟩ ∨ Match.Before ⟨a.bindings, a.consumed⟩ m := by
  obtain ⟨least, rest, matched, same, -⟩ := List.map_eq_cons_iff.mp first
  obtain rfl : least = ⟨a.bindings, a.consumed⟩ :=
    congrArg (fun x : Activation ν => (⟨x.bindings, x.consumed⟩ : Match)) same
  have found := coherent.mem_join_iff.mpr complete
  have ordered := coherent.pairwise_join r.conditions .empty
  rw [matched] at found ordered
  rcases List.mem_cons.mp found with rfl | later
  · exact .inl rfl
  · exact .inr ((List.pairwise_cons.mp ordered).1 m later)

/-- Conflict resolution selects the activation that is the one to select. -/
theorem selects_of_resolve {e : Engine ν} (coherent : e.store.Coherent) {a : Activation ν}
    (resolved : Activation.resolve e.candidates = some a)
    : e.Selects a := by
  obtain ⟨before, after, whole, above, atLeast⟩ := Activation.exists_split_of_resolve resolved
  obtain ⟨earlier, r, later, inner, outer, rules, here, rfl, rfl⟩ :=
    exists_of_flatMap_eq_append_cons whole
  have ofRule {x : Activation ν} (member : x ∈ inner ++ a :: outer)
      : x.rule = r ∧ e.CompleteMatch r ⟨x.bindings, x.consumed⟩ :=
    (mem_activationsOf_iff coherent).mp (here ▸ member)
  obtain ⟨rfl, complete⟩ := ofRule (x := a) (by simp)
  -- Activations of one rule have the same salience, so none of this rule comes before.
  obtain rfl : inner = [] := by
    cases inner with
    | nil => rfl
    | cons x rest =>
      have below := above x (by simp)
      rw [(ofRule (x := x) (by simp)).1] at below
      exact absurd below (Int.lt_irrefl _)
  have activation {r : Rule ν} {rs : List (Rule ν)} (member : r ∈ rs) {m : Match}
      (complete : e.CompleteMatch r m)
      : ⟨r, m.bindings, m.consumed⟩ ∈ rs.flatMap e.activationsOf :=
    List.mem_flatMap.mpr ⟨r, member, (mem_activationsOf_iff coherent).mpr ⟨rfl, complete⟩⟩
  refine ⟨complete, ⟨earlier, later, rules, ?_, ?_⟩, fun m => least_of_activationsOf coherent here⟩
  · rintro r member ⟨m, complete⟩
    exact above _ (List.mem_append_left _ (activation member complete))
  · rintro r member ⟨m, complete⟩
    exact atLeast _ (List.mem_append_right _ (activation member complete))

/-- At most one activation is the one to select, because of two rules one comes first. -/
theorem Selects.unique {e : Engine ν} {a a' : Activation ν} (selects : e.Selects a)
    (selects' : e.Selects a')
    : a = a' := by
  obtain ⟨before, after, rules, above, atLeast⟩ := selects.foremost
  obtain ⟨before', after', rules', above', atLeast'⟩ := selects'.foremost
  have same : a.rule = a'.rule := by
    rcases List.append_eq_append_iff.mp (rules.symm.trans rules') with
      ⟨more, rfl, tail⟩ | ⟨more, rfl, tail⟩
    · cases more with
      | nil => exact (List.cons.inj tail).1
      | cons r more =>
        obtain ⟨rfl, rfl⟩ := List.cons.inj tail
        have below := above' a.rule (by simp) ⟨_, selects.complete⟩
        have notAbove := atLeast a'.rule (by simp) ⟨_, selects'.complete⟩
        omega
    · cases more with
      | nil => exact (List.cons.inj tail).1.symm
      | cons r more =>
        obtain ⟨rfl, rfl⟩ := List.cons.inj tail
        have below := above a'.rule (by simp) ⟨_, selects'.complete⟩
        have notAbove := atLeast' a.rule (by simp) ⟨_, selects.complete⟩
        omega
  obtain ⟨rule, bindings, consumed⟩ := a
  obtain ⟨rule', bindings', consumed'⟩ := a'
  obtain rfl : rule = rule' := same
  rcases selects.least _ selects'.complete with equal | before
  · obtain ⟨rfl, rfl⟩ := Match.mk.inj equal
    rfl
  · rcases selects'.least _ selects.complete with equal | after
    · obtain ⟨rfl, rfl⟩ := Match.mk.inj equal
      rfl
    · exact absurd after (List.lt_asymm before)

/-- Nothing is resolved exactly if no rule has a complete match. -/
theorem resolve_candidates_eq_none_iff {e : Engine ν} (coherent : e.store.Coherent)
    : Activation.resolve e.candidates = none ↔ ¬∃ r ∈ e.rules, ∃ m, e.CompleteMatch r m := by
  rw [Activation.resolve_eq_none_iff, List.eq_nil_iff_forall_not_mem]
  constructor
  · rintro none ⟨r, member, m, complete⟩
    exact none ⟨r, m.bindings, m.consumed⟩
      (List.mem_flatMap.mpr ⟨r, member, (mem_activationsOf_iff coherent).mpr ⟨rfl, complete⟩⟩)
  · intro none a member
    obtain ⟨r, ruled, found⟩ := List.mem_flatMap.mp member
    exact none ⟨r, ruled, _, ((mem_activationsOf_iff coherent).mp found).2⟩

/-- Exactly one activation is to be selected if some rule has a complete match. -/
theorem existsUnique_selects {e : Engine ν} (coherent : e.store.Coherent)
    (matched : ∃ r ∈ e.rules, ∃ m, e.CompleteMatch r m)
    : ∃! a, e.Selects a := by
  cases resolved : Activation.resolve e.candidates with
  | none => exact absurd matched ((resolve_candidates_eq_none_iff coherent).mp resolved)
  | some a =>
    have selects := selects_of_resolve coherent resolved
    exact ⟨a, selects, fun a' selects' => selects'.unique selects⟩

-- --------------------------------------------------------------------------------------
-- How a task is answered
-- --------------------------------------------------------------------------------------

/-- The activations that output reports as selected, by rule and bindings. -/
def selections (out : List (Output ν)) : List (String × Bindings) := out.filterMap (·.selected?)

/-- The activations that output reports as fired. -/
def firings (out : List (Output ν)) : List ActivationId := out.filterMap (·.firing?)

/-- How an engine answers a task for an asserted fact. What may be fired, or else stops the run, is
the activation to select and no other one.
-/
inductive Answered (e : Engine ν) (t : Task) (mayFire : Bool)
    : Ran ν (Except Failure (Option Fired)) → Prop where
  | unmatched {out : List (Output ν)}
    (unmatched : ¬∃ r ∈ e.rules, ∃ m, e.CompleteMatch r m) (selected : selections out = [])
    (fired : firings out = [])
    : Answered e t mayFire ⟨.ok none, e, out⟩
  | refused {a : Activation ν} {out : List (Output ν)} (selects : e.Selects a)
    (refused : ¬GuardsHold a.bindings a.rule.guards)
    (selected : selections out = [(a.rule.id, a.bindings)]) (fired : firings out = [])
    : Answered e t mayFire ⟨.ok none, e, out⟩
  | fired {a : Activation ν} {f : Fired} {e' : Engine ν} {out out' : List (Output ν)}
    (selects : e.Selects a) (passed : GuardsHold a.bindings a.rule.guards)
    (allowed : mayFire = true) (ran : (fire a).run e = ⟨f, e', out'⟩)
    (same : f.rule = a.rule.id ∧ f.bindings = a.bindings ∧ f.consumed = a.consumed)
    (selected : selections out = [(a.rule.id, a.bindings)]) (fired : firings out = [f.id])
    : Answered e t mayFire ⟨.ok (some f), e', out⟩
  | stopped {a : Activation ν} {failure : Failure} {out : List (Output ν)}
    (selects : e.Selects a) (passed : GuardsHold a.bindings a.rule.guards)
    (stopped : mayFire = false) (selected : selections out = [(a.rule.id, a.bindings)])
    (fired : firings out = [])
    : Answered e t mayFire ⟨.error failure, { e with agenda := e.agenda.putBack t }, out⟩

theorem selections_of_aside {out : List (Output ν)} (aside : ∀ o ∈ out, o.IsAside)
    : selections out = [] :=
  List.filterMap_eq_nil_iff.mpr fun o member => (aside o member).1

theorem firings_of_aside {out : List (Output ν)} (aside : ∀ o ∈ out, o.IsAside)
    : firings out = [] :=
  List.filterMap_eq_nil_iff.mpr fun o member => (aside o member).2

@[simp]
theorem selections_append (out more : List (Output ν))
    : selections (out ++ more) = selections out ++ selections more :=
  List.filterMap_append

@[simp]
theorem firings_append (out more : List (Output ν))
    : firings (out ++ more) = firings out ++ firings more :=
  List.filterMap_append

/-- Output that is aside in front changes nothing about how a task is answered. -/
theorem Answered.afterAside {e : Engine ν} {t : Task} {mayFire : Bool}
    {ran : Ran ν (Except Failure (Option Fired))} (answered : Answered e t mayFire ran)
    {out : List (Output ν)} (aside : ∀ o ∈ out, o.IsAside)
    : Answered e t mayFire { ran with output := out ++ ran.output } := by
  have selected (more : List (Output ν)) : selections (out ++ more) = selections more := by
    rw [selections_append, selections_of_aside aside, List.nil_append]
  have fired (more : List (Output ν)) : firings (out ++ more) = firings more := by
    rw [firings_append, firings_of_aside aside, List.nil_append]
  cases answered with
  | unmatched none noSelection noFiring =>
    exact .unmatched none ((selected _).trans noSelection) ((fired _).trans noFiring)
  | refused selects refused selection noFiring =>
    exact .refused selects refused ((selected _).trans selection) ((fired _).trans noFiring)
  | fired selects passed allowed ran same selection firing =>
    exact .fired selects passed allowed ran same ((selected _).trans selection)
      ((fired _).trans firing)
  | stopped selects passed stopped selection noFiring =>
    exact .stopped selects passed stopped ((selected _).trans selection)
      ((fired _).trans noFiring)

/-- Edits neither select nor fire. -/
theorem aside_of_edits {author : Option ActivationId} {e e' : Engine ν} {out : List (Output ν)}
    (edits : Edits author e out e')
    : ∀ o ∈ out, o.IsAside := by
  refine edits.lift (R := fun _ out _ => ∀ o ∈ out, o.IsAside) ⟨fun _ => nofun, ?_⟩ ?_
  · intro _ _ _ out more first rest o member
    exact (List.mem_append.mp member).elim (first o) (rest o)
  · intro _ _ _ edit o member
    cases edit with
    | report _ harmless =>
      exact List.mem_singleton.mp member ▸ Output.isAside_of_isReport harmless
    | note => exact List.mem_singleton.mp member ▸ ⟨rfl, rfl⟩
    | registry | define | undefine => cases member
    | assert | retract =>
      rcases List.mem_cons.mp member with rfl | later
      · exact ⟨rfl, rfl⟩
      · exact List.mem_singleton.mp later ▸ ⟨rfl, rfl⟩

/-- Firing reports itself as the only firing, and no selection. -/
theorem fire_reports (a : Activation ν) (e : Engine ν)
    : selections ((fire a).run e).output = []
      ∧ firings ((fire a).run e).output = [((fire a).run e).result.id] := by
  obtain ⟨e', out, edits, -, output⟩ := fire_edits a e
  have aside := aside_of_edits edits
  rw [output, selections_append, firings_append, selections_of_aside aside, firings_of_aside aside]
  exact ⟨rfl, rfl⟩

theorem result_guardsPass (a : Activation ν) (e : Engine ν)
    : ((guardsPass a).run e).result = true ↔ GuardsHold a.bindings a.rule.guards := by
  rw [← checkGuards_eq_passed_iff]
  unfold guardsPass
  cases checkGuards a.bindings a.rule.guards <;> simp

/-- The selected activation is answered for alone. -/
theorem fireSelected_answered {e : Engine ν} {a : Activation ν} (selects : e.Selects a) (t : Task)
    (mayFire : Bool)
    : Answered e t mayFire ((fireSelected t a mayFire).run e) := by
  obtain ⟨same, aside⟩ := guardsPass_observes (P := Output.IsAside) a ⟨rfl, rfl⟩
    (fun _ => ⟨rfl, rfl⟩) (fun _ _ => ⟨rfl, rfl⟩) e
  have guards := result_guardsPass a e
  have selected : selections
      (.event (.activationSelected a.rule.id a.bindings) :: ((guardsPass a).run e).output)
        = [(a.rule.id, a.bindings)] :=
    congrArg (_ :: ·) (selections_of_aside aside)
  have fired : firings
      (.event (.activationSelected a.rule.id a.bindings) :: ((guardsPass a).run e).output)
        = [] :=
    (firings_append [_] _).trans (firings_of_aside aside)
  cases passed : ((guardsPass a).run e).result with
  | false =>
    rw [passed] at guards
    have refused : ¬GuardsHold a.bindings a.rule.guards := fun hold => by simp [hold] at guards
    simpa [fireSelected, passed, same] using Answered.refused selects refused selected fired
  | true =>
    have hold := guards.mp passed
    cases mayFire with
    | true =>
      obtain ⟨noSelection, firing⟩ := fire_reports a e
      have answered : Answered e t true ⟨.ok (some ((fire a).run e).result),
          ((fire a).run e).engine, (.event (.activationSelected a.rule.id a.bindings)
            :: ((guardsPass a).run e).output) ++ ((fire a).run e).output⟩ := by
        refine .fired selects hold rfl rfl ⟨rfl, rfl, rfl⟩ ?_ ?_
        · rw [selections_append, selected, noSelection, List.append_nil]
        · rw [firings_append, fired, firing, List.nil_append]
      simpa [fireSelected, passed, same] using answered
    | false =>
      let failure := Failure.limit (e.config.maxActivations.getD 0)
      have answered : Answered e t false ⟨.error failure,
          { e with agenda := e.agenda.putBack t },
          (.event (.activationSelected a.rule.id a.bindings) :: ((guardsPass a).run e).output)
            ++ [.event (.engineError (some a.rule.id) failure)]⟩ := by
        refine .stopped selects hold rfl ?_ ?_
        · rw [selections_append, selected]
          rfl
        · rw [firings_append, fired]
          rfl
      simpa [fireSelected, passed, same, failure] using answered

/-- A task for an asserted fact is answered with the activation to select, if there is one. -/
theorem process_answered {e : Engine ν} (coherent : e.store.Coherent) {t : Task}
    (asserted : t.change = .asserted) (mayFire : Bool)
    : Answered e t mayFire ((process t mayFire).run e) := by
  obtain ⟨same, reports⟩ := Observes.reading.findActivations e.rules e
  have result := result_findActivations e.rules e
  cases found : (findActivations e.rules).run e with
  | mk candidates e' out =>
    simp only [found] at same reports result
    subst same
    obtain rfl : candidates = e'.candidates := result
    have aside : ∀ o ∈ out ++ [.event (.activationsFound t.fact.id e'.candidates.length)],
        o.IsAside := by
      intro o member
      rcases List.mem_append.mp member with before | last
      · exact Output.isAside_of_isReport (reports o before)
      · exact List.mem_singleton.mp last ▸ ⟨rfl, rfl⟩
    cases resolved : Activation.resolve e'.candidates with
    | none =>
      have unmatched := (resolve_candidates_eq_none_iff coherent).mp resolved
      have answered : Answered e' t mayFire ⟨.ok none, e', []⟩ := .unmatched unmatched rfl rfl
      simpa [process, asserted, found, resolved] using answered.afterAside aside
    | some a =>
      have selects := selects_of_resolve coherent resolved
      have answered := fireSelected_answered selects t mayFire
      simpa [process, asserted, found, resolved] using answered.afterAside aside

-- --------------------------------------------------------------------------------------
-- Which tasks come to their end
-- --------------------------------------------------------------------------------------

/-- Every match that the search for activations tries has an outcome. -/
def SearchEnds (e : Engine ν) : Prop := ∀ r ∈ e.rules, e.store.JoinReturns r.conditions .empty

/-- By induction on the rules. -/
theorem returns_findActivations_iff {e : Engine ν} (coherent : e.store.Coherent)
    {rules : List (Rule ν)}
    : ((findActivations rules).run e).Returns
      ↔ ∀ r ∈ rules, e.store.JoinReturns r.conditions .empty := by
  induction rules with
  | nil => exact iff_of_true (returns_pure e _) nofun
  | cons r rest ih =>
    obtain ⟨same, -⟩ := Observes.reading.matchesFor r.id r.conditions .empty none e
    rw [findActivations, returns_bind, returns_bind, same, ih, List.forall_mem_cons,
      returns_matchesFor_none_iff coherent]
    exact and_congr_right fun _ => and_iff_left (returns_pure _ _)

/-- Guards always have an outcome, so only a firing can keep the selected activation. -/
theorem returns_fireSelected_iff {e : Engine ν} {t : Task} {a : Activation ν} {mayFire : Bool}
    : ((fireSelected t a mayFire).run e).Returns
      ↔ (GuardsHold a.bindings a.rule.guards → mayFire = true → ((fire a).run e).Returns) := by
  have quiet : (guardsPass a).Observes fun o => o.isEndless = false :=
    guardsPass_observes a rfl (fun _ => rfl) fun _ _ => rfl
  unfold fireSelected
  rw [Observes.returns_bind_iff (.emit rfl), quiet.returns_bind_iff, ← result_guardsPass a e]
  cases ((guardsPass a).run e).result with
  | false => exact iff_of_true (returns_pure _ _) nofun
  | true =>
    cases mayFire with
    | false => simp [Ran.Returns, Output.isEndless]
    | true =>
      simp only [if_true, forall_const]
      exact (returns_bind ..).trans (and_iff_left (returns_pure _ _))

/-- A task comes to its end if the search does, and so does the firing of what is selected. -/
theorem returns_process_iff {e : Engine ν} (coherent : e.store.Coherent) {t : Task}
    (asserted : t.change = .asserted) {mayFire : Bool}
    : ((process t mayFire).run e).Returns
      ↔ e.SearchEnds ∧ ∀ a, e.Selects a → GuardsHold a.bindings a.rule.guards → mayFire = true →
          ((fire a).run e).Returns := by
  obtain ⟨same, -⟩ := Observes.reading.findActivations e.rules e
  have candidates : ((findActivations e.rules).run e).result = e.candidates :=
    result_findActivations e.rules e
  simp only [process, asserted]
  rw [returns_look, returns_bind, same, candidates, returns_findActivations_iff coherent,
    Observes.returns_bind_iff (.emit rfl)]
  refine and_congr_right fun _ => ?_
  cases resolved : Activation.resolve e.candidates with
  | none =>
    have unmatched := (resolve_candidates_eq_none_iff coherent).mp resolved
    refine iff_of_true (returns_pure _ _) fun a selects => ?_
    obtain ⟨before, after, rules, -⟩ := selects.foremost
    exact absurd ⟨a.rule, by simp [rules], _, selects.complete⟩ unmatched
  | some a =>
    have selects := selects_of_resolve coherent resolved
    refine returns_fireSelected_iff.trans ⟨fun returns a' selects' => ?_, fun returns => ?_⟩
    · exact selects.unique selects' ▸ returns
    · exact returns a selects

/-- If the search does not come to an end nothing is selected or fired before it is caught. -/
theorem reached_process {e : Engine ν} (coherent : e.store.Coherent) {t : Task}
    (asserted : t.change = .asserted) (mayFire : Bool) (caught : ¬e.SearchEnds)
    : selections ((process t mayFire).run e).reached = []
      ∧ firings ((process t mayFire).run e).reached = [] := by
  obtain ⟨same, reports⟩ := Observes.reading.findActivations e.rules e
  have marked : ∃ o ∈ ((findActivations e.rules).run e).output, o.isEndless = true := by
    have endless := mt (returns_findActivations_iff coherent).mp caught
    simpa [Ran.Returns] using endless
  obtain ⟨rest, output⟩ : ∃ rest, ((process t mayFire).run e).output
      = ((findActivations e.rules).run e).output ++ rest := by
    simp only [process, asserted]
    exact ⟨_, rfl⟩
  have aside : ∀ o ∈ ((process t mayFire).run e).reached, o.IsAside := fun o member =>
    Output.isAside_of_isReport (reports o (Ran.mem_of_mem_reached output marked member))
  exact ⟨selections_of_aside aside, firings_of_aside aside⟩

/-- At every point of a history a task for an asserted fact selects the first activation of the
highest salience among the rules as they are defined, and of its matches the least; it fires that
activation if the guards of the rule hold, and none else. This is how a task is answered that comes
to its end, and it does exactly if every match that the search for activations tries has an outcome,
and the body of what is fired comes to its end too. If the search is caught in a match without one,
nothing is selected or fired at all, whatever complete matches there are.
-/
theorem selection_of_history {e : Engine ν} {out : List (Output ν)} {done : List Task}
    (history : History e out done) {t : Task} (asserted : t.change = .asserted) (agenda : Agenda)
    (mayFire : Bool)
    : e.DefinitionsOrdered
      ∧ ((∃ r ∈ e.rules, ∃ m, e.CompleteMatch r m) → ∃! a, e.Selects a)
      ∧ (((process t mayFire).run { e with agenda }).Returns →
        Answered { e with agenda } t mayFire ((process t mayFire).run { e with agenda }))
      ∧ (((process t mayFire).run { e with agenda }).Returns
        ↔ e.SearchEnds ∧ ∀ a, e.Selects a → GuardsHold a.bindings a.rule.guards →
          mayFire = true → ((fire a).run { e with agenda }).Returns)
      ∧ (¬e.SearchEnds →
        selections ((process t mayFire).run { e with agenda }).reached = []
          ∧ firings ((process t mayFire).run { e with agenda }).reached = []) := by
  have settled := settled_of_history history
  refine ⟨definitionsOrdered_of_history history, existsUnique_selects settled.coherent,
    fun _ => process_answered (e := { e with agenda }) settled.coherent asserted mayFire,
    ?_, reached_process (e := { e with agenda }) settled.coherent asserted mayFire⟩
  refine (returns_process_iff (e := { e with agenda }) settled.coherent asserted).trans ?_
  simp only [selects_with_agenda_iff]
  rfl

/-- An engine with two sensors, and two rules of the same salience that either sensor meets. -/
def twoSensors : Ran Unit Unit :=
  EngineM.run
    (do
      (Operation.define (.rule (Sample.relay "alarm" "Sensor" "Alarm"))).perform
      (Operation.define (.rule (Sample.relay "call" "Sensor" "Call"))).perform
      (Operation.assert (Sample.recordOf "Sensor")).perform
      (Operation.assert (Sample.recordOf "Sensor")).perform)
    (.ofConfig {})

/-- The task for the second sensor selects the rule that was defined first, with the first
sensor.
-/
theorem twoSensors_selection
    : ∃ done, History twoSensors.engine twoSensors.output done
        ∧ ∃ a, twoSensors.engine.Selects a ∧ a.rule.id = "alarm" ∧ a.consumed = [⟨1⟩] := by
  have defined :=
    (History.created {}).operated (.define (.rule (Sample.relay "alarm" "Sensor" "Alarm")))
  have both := defined.operated (.define (.rule (Sample.relay "call" "Sensor" "Call")))
  have first := both.operated (.assert (Sample.recordOf "Sensor"))
  have second := first.operated (.assert (Sample.recordOf "Sensor"))
  have history : History twoSensors.engine twoSensors.output [] := by
    simpa [twoSensors] using second
  refine ⟨[], history, ?_⟩
  let t : Task := ⟨.asserted, .ofRecord ⟨2⟩ "Sensor" (Sample.recordOf "Sensor")⟩
  obtain ⟨-, -, answered, -⟩ := selection_of_history history (t := t) rfl {} true
  replace answered := answered (by decide +kernel)
  generalize ran : (process t true).run { twoSensors.engine with agenda := {} } = answer at answered
  have fired : (answer.result.toOption.join.map fun f => (f.rule, f.consumed))
      = some ("alarm", [⟨1⟩]) := by
    rw [← ran]
    decide +kernel
  cases answered with
  | unmatched => cases fired
  | refused => cases fired
  | @fired a _ _ _ _ selects _ _ _ same =>
    obtain ⟨rule, -, consumed⟩ := same
    obtain ⟨sameRule, sameConsumed⟩ := Prod.mk.inj (Option.some.inj fired)
    exact ⟨a, selects_with_agenda_iff.mp selects, rule ▸ sameRule, consumed ▸ sameConsumed⟩
  | stopped => cases fired

/-- A rule for tagged readings. -/
def taggedAlarm : Rule Unit :=
  { Sample.relay "alarm" "Reading" "Alarm" with conditions := Sample.tagged }

/-- An engine with the rule, a reading that meets it, and one whose match never ends. -/
def tangledReadings : Ran Unit Unit :=
  EngineM.run
    (do
      (Operation.define (.rule taggedAlarm)).perform
      (Operation.assert Sample.plain).perform
      (Operation.assert Sample.tangled).perform)
    (.ofConfig {})

/-- The rule has a complete match as the first reading is dealt with, but the search is caught in
the other one, and nothing is selected or fired.
-/
theorem tangledReadings_unanswered
    : History tangledReadings.engine tangledReadings.output []
      ∧ (∃ r ∈ tangledReadings.engine.rules, ∃ m, tangledReadings.engine.CompleteMatch r m)
      ∧ ∃ t agenda, tangledReadings.engine.agenda.next? = some (t, agenda)
        ∧ t.change = .asserted
        ∧ ¬((process t true).run { tangledReadings.engine with agenda }).Returns
        ∧ selections ((process t true).run { tangledReadings.engine with agenda }).reached = []
        ∧ firings ((process t true).run { tangledReadings.engine with agenda }).reached = [] := by
  have history : History tangledReadings.engine tangledReadings.output [] := by
    have defined := (History.created {}).operated (.define (.rule taggedAlarm))
    have first := defined.operated (.assert Sample.plain)
    have second := first.operated (.assert Sample.tangled)
    simpa [tangledReadings] using second
  have coherent := (settled_of_history history).coherent
  refine ⟨history, ⟨taggedAlarm, List.mem_singleton_self _, ?_⟩,
    ⟨.asserted, .ofRecord ⟨1⟩ "Reading" Sample.plain⟩, _, rfl, rfl, ?_⟩
  · have found : tangledReadings.engine.store.join taggedAlarm.conditions .empty ≠ [] := by
      decide +kernel
    obtain ⟨m, member⟩ := List.exists_mem_of_ne_nil _ found
    exact ⟨m, coherent.mem_join_iff.mp member⟩
  · decide +kernel

end Engine

end RuleEngine
