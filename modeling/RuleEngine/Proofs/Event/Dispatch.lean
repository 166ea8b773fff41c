import Mathlib.Data.List.Induction
import RuleEngine.Event.Notifier

/-! Dispatch while the listeners change. To see what an emission does, its listeners are made to
report: each notes first that it is called, and then all that it does. What they report is what
happens to the notifier, step by step, so the calls, the listeners that are left and the answers to
unsubscribing can be read off it.
-/

namespace RuleEngine

-- --------------------------------------------------------------------------------------
-- Reports
-- --------------------------------------------------------------------------------------

/-- What happens in the course of calls to a notifier. -/
inductive Happening (ν : Type) where
  /-- A listener is called. It knows its name if it was there as the emission began. -/
  | called (name : Option ListenerId)
  | noted (n : ν)
  | subscribed (id : ListenerId) (listener : Listener ν)
  | unsubscribed (id : ListenerId) (found : Bool)

namespace Happening

variable {ν : Type}

def called? : Happening ν → Option (Option ListenerId)
  | called name => some name
  | _ => none

def noted? : Happening ν → Option ν
  | noted n => some n
  | _ => none

def added? : Happening ν → Option (ListenerId × Listener ν)
  | subscribed id listener => some (id, listener)
  | _ => none

/-- The listener that goes, if one does. -/
def removed? : Happening ν → Option ListenerId
  | unsubscribed id true => some id
  | _ => none

/-- The identities that are registered after what happens. -/
def apply (registered : List ListenerId) : Happening ν → List ListenerId
  | subscribed id _ => registered ++ [id]
  | unsubscribed id _ => registered.filter (· != id)
  | called _ | noted _ => registered

/-- The listeners that are called, in order. -/
def calls (os : List (Happening ν)) : List (Option ListenerId) := os.filterMap called?

def notes (os : List (Happening ν)) : List ν := os.filterMap noted?

def additions (os : List (Happening ν)) : List (ListenerId × Listener ν) := os.filterMap added?

def removals (os : List (Happening ν)) : List ListenerId := os.filterMap removed?

/-- The identities that are registered after all that happened, from none at the beginning. -/
def registered (os : List (Happening ν)) : List ListenerId := os.foldl apply []

end Happening

section

variable {ν : Type}

/-- Listeners without those that are gone. -/
def without (gone : List ListenerId) (listeners : List (ListenerId × Listener ν))
    : List (ListenerId × Listener ν) :=
  listeners.filter (·.1 ∉ gone)

@[simp]
theorem without_nil (listeners : List (ListenerId × Listener ν))
    : without [] listeners = listeners := by
  simp [without]

theorem without_cons (id : ListenerId) (gone : List ListenerId)
    (listeners : List (ListenerId × Listener ν))
    : without (id :: gone) listeners = without gone (listeners.filter (·.1 != id)) := by
  rw [without, without, List.filter_filter]
  refine List.filter_congr fun x _ => ?_
  rw [Bool.eq_iff_iff]
  simp [and_comm]

theorem filter_ne_self {id : ListenerId} {listeners : List (ListenerId × Listener ν)}
    (absent : id ∉ listeners.map (·.1))
    : listeners.filter (·.1 != id) = listeners :=
  List.filter_eq_self.mpr fun _ member =>
    bne_iff_ne.mpr fun same => absent (same ▸ List.mem_map_of_mem member)

namespace Reaction

/-- A reaction that notes all that it does. The listeners that it subscribes note that they are
called, and all that they do.
-/
def reporting : Reaction ν → Reaction (Happening ν)
  | done => .done
  | abort => .abort
  | note x next => .note (.noted x) next.reporting
  | subscribe l next =>
    .subscribe (fun e => .note (.called none) (l e).reporting) fun id =>
      .note (.subscribed id l) (next id).reporting
  | unsubscribe id next =>
    .unsubscribe id fun found => .note (.unsubscribed id found) (next found).reporting

end Reaction

namespace Notifier

open Happening (calls notes additions removals registered)

/-- A notifier whose listeners note that they are called, and all that they do. -/
def reporting (n : Notifier ν) : Notifier (Happening ν) where
  listeners := n.listeners.map fun (id, l) =>
    (id, fun e => .note (.called (some id)) (l e).reporting)
  issued := n.issued

/-- What happens as an event is emitted. -/
def course (n : Notifier ν) (e : Event) : List (Happening ν) := (n.reporting.emit e).2

/-- The identities of the listeners, in order. -/
def ids (n : Notifier ν) : List ListenerId := n.listeners.map (·.1)

@[simp]
theorem ids_subscribe (n : Notifier ν) (l : Listener ν)
    : (n.subscribe l).2.ids = n.ids ++ [⟨n.issued + 1⟩] := by
  simp [subscribe, ids]

@[simp]
theorem ids_unsubscribe (n : Notifier ν) (id : ListenerId)
    : (n.unsubscribe id).2.ids = n.ids.filter (· != id) := by
  simp [unsubscribe, ids, List.filter_map, Function.comp_def]

theorem unsubscribe_iff (n : Notifier ν) (id : ListenerId)
    : (n.unsubscribe id).1 = true ↔ id ∈ n.ids := by
  simp [unsubscribe, ids]

theorem react_subscribe (n : Notifier ν) (l : Listener ν) (next : ListenerId → Reaction ν)
    : n.react (.subscribe l next) = (n.subscribe l).2.react (next (n.subscribe l).1) :=
  rfl

theorem react_unsubscribe (n : Notifier ν) (id : ListenerId) (next : Bool → Reaction ν)
    : n.react (.unsubscribe id next) = (n.unsubscribe id).2.react (next (n.unsubscribe id).1) :=
  rfl

-- --------------------------------------------------------------------------------------
-- Steps
-- --------------------------------------------------------------------------------------

/-- A step takes a notifier into the next one. -/
inductive Happens : Notifier ν → Happening ν → Notifier ν → Prop where
  | called (n : Notifier ν) (name : Option ListenerId) : Happens n (.called name) n
  | noted (n : Notifier ν) (x : ν) : Happens n (.noted x) n
  | subscribed (n : Notifier ν) (l : Listener ν)
    : Happens n (.subscribed (n.subscribe l).1 l) (n.subscribe l).2
  | unsubscribed (n : Notifier ν) (id : ListenerId)
    : Happens n (.unsubscribed id (n.unsubscribe id).1) (n.unsubscribe id).2

/-- Steps take a notifier into another one, each from where the one before it led. -/
inductive Leads : Notifier ν → List (Happening ν) → Notifier ν → Prop where
  | nil (n : Notifier ν) : Leads n [] n
  | cons {n n' n'' : Notifier ν} {o : Happening ν} {rest : List (Happening ν)}
    (first : Happens n o n') (later : Leads n' rest n'') : Leads n (o :: rest) n''

theorem Leads.append {n n' n'' : Notifier ν} {os more : List (Happening ν)}
    (leads : Leads n os n') (onward : Leads n' more n'')
    : Leads n (os ++ more) n'' := by
  induction leads with
  | nil => exact onward
  | cons first _ ih => exact .cons first (ih onward)

-- --------------------------------------------------------------------------------------
-- Reporting changes nothing
-- --------------------------------------------------------------------------------------

/-- Notifiers that differ in what their listeners do only. -/
structure Alike {μ : Type} (m : Notifier μ) (n : Notifier ν) : Prop where
  ids : m.ids = n.ids
  issued : m.issued = n.issued

namespace Alike

variable {μ : Type} {m : Notifier μ} {n : Notifier ν}

theorem subscribe (alike : Alike m n) (l : Listener μ) (l' : Listener ν)
    : (m.subscribe l).1 = (n.subscribe l').1 ∧ Alike (m.subscribe l).2 (n.subscribe l').2 := by
  refine ⟨?_, ?_, ?_⟩
  · simp [Notifier.subscribe, alike.issued]
  · simp [alike.ids, alike.issued]
  · simp [Notifier.subscribe, alike.issued]

theorem unsubscribe (alike : Alike m n) (id : ListenerId)
    : (m.unsubscribe id).1 = (n.unsubscribe id).1
      ∧ Alike (m.unsubscribe id).2 (n.unsubscribe id).2 := by
  refine ⟨?_, ?_, alike.issued⟩
  · rw [Bool.eq_iff_iff, unsubscribe_iff, unsubscribe_iff, alike.ids]
  · simp [alike.ids]

end Alike

/-- What is reported of a part of an emission is what happens in it, and what is noted apart from
that is the same.
-/
structure Reports (n : Notifier ν) (names : List (Option ListenerId))
    (report : Notifier (Happening ν) × List (Happening ν)) (ran : Notifier ν × List ν)
    : Prop where
  leads : Leads n report.2 ran.1
  names : calls report.2 = names
  noted : notes report.2 = ran.2
  alike : Alike report.1 ran.1

/-- A reaction reports what it does, by induction on the reaction. -/
theorem reports_react (r : Reaction ν) {m : Notifier (Happening ν)} {n : Notifier ν}
    (alike : Alike m n)
    : Reports n [] (m.react r.reporting) (n.react r) := by
  induction r generalizing m n with
  | done => exact ⟨.nil n, rfl, rfl, alike⟩
  | abort => exact ⟨.nil n, rfl, rfl, alike⟩
  | note x next ih =>
    obtain ⟨leads, names, notes, alike'⟩ := ih alike
    exact ⟨.cons (.noted n x) leads, names, congrArg (x :: ·) notes, alike'⟩
  | subscribe l next _ ih =>
    obtain ⟨same, alike'⟩ := alike.subscribe (fun e => .note (.called none) (l e).reporting) l
    obtain ⟨leads, names, notes, alike''⟩ := ih (n.subscribe l).1 alike'
    rw [Reaction.reporting, react_subscribe, react_subscribe, same]
    exact ⟨.cons (.subscribed n l) leads, names, notes, alike''⟩
  | unsubscribe id next ih =>
    obtain ⟨same, alike'⟩ := alike.unsubscribe id
    obtain ⟨leads, names, notes, alike''⟩ := ih (n.unsubscribe id).1 alike'
    rw [Reaction.reporting, react_unsubscribe, react_unsubscribe, same]
    exact ⟨.cons (.unsubscribed n id) leads, names, notes, alike''⟩

/-- A dispatch calls its listeners one after the other, by induction on them, whatever happens to
the notifier meanwhile.
-/
theorem reports_dispatch (e : Event) (listeners : List (ListenerId × Listener ν))
    {m : Notifier (Happening ν)} {n : Notifier ν} (alike : Alike m n)
    : Reports n (listeners.map (some ·.1))
        (dispatch e (listeners.map fun (id, l) =>
          (id, fun e => .note (.called (some id)) (l e).reporting)) m)
        (dispatch e listeners n) := by
  induction listeners generalizing m n with
  | nil => exact ⟨.nil n, rfl, rfl, alike⟩
  | cons first rest ih =>
    obtain ⟨id, l⟩ := first
    obtain ⟨leads, names, notes, alike'⟩ := reports_react (l e) alike
    obtain ⟨leads', names', notes', alike''⟩ := ih alike'
    refine ⟨.cons (.called n (some id)) (leads.append leads'), ?_, ?_, alike''⟩
    · have joined := congrArg₂ (· ++ ·) names names'
      rw [calls, calls, ← List.filterMap_append] at joined
      exact congrArg (some id :: ·) joined
    · have joined := congrArg₂ (· ++ ·) notes notes'
      rwa [Happening.notes, Happening.notes, ← List.filterMap_append] at joined

theorem reports_emit (n : Notifier ν) (e : Event)
    : Reports n (n.listeners.map (some ·.1)) (n.reporting.emit e) (n.emit e) :=
  reports_dispatch e n.listeners ⟨by simp [reporting, ids], rfl⟩

-- --------------------------------------------------------------------------------------
-- The listeners that are left
-- --------------------------------------------------------------------------------------

/-- The identities of the listeners ascend, and were issued. -/
structure Numbered (n : Notifier ν) : Prop where
  ascending : n.ids.Pairwise (·.number < ·.number)
  issued : ∀ id ∈ n.ids, id.number ≤ n.issued

theorem Happens.numbered {n n' : Notifier ν} {o : Happening ν} (happens : Happens n o n')
    (numbered : n.Numbered)
    : n'.Numbered := by
  cases happens with
  | called | noted => exact numbered
  | subscribed l =>
    constructor
    · rw [ids_subscribe, List.pairwise_append]
      refine ⟨numbered.ascending, List.pairwise_singleton .., fun id old last new => ?_⟩
      obtain rfl := List.mem_singleton.mp new
      exact Nat.lt_succ_of_le (numbered.issued id old)
    · intro id member
      rw [ids_subscribe] at member
      rcases List.mem_append.mp member with old | new
      · exact Nat.le_succ_of_le (numbered.issued id old)
      · exact List.mem_singleton.mp new ▸ Nat.le_refl _
  | unsubscribed id =>
    constructor
    · rw [ids_unsubscribe]
      exact numbered.ascending.filter _
    · intro other member
      rw [ids_unsubscribe] at member
      exact numbered.issued other (List.mem_filter.mp member).1

/-- Identities are issued one after the other. -/
theorem Leads.number_additions {n n' : Notifier ν} {os : List (Happening ν)}
    (leads : Leads n os n')
    : (additions os).map (·.1.number) = List.range' (n.issued + 1) (additions os).length
      ∧ n'.issued = n.issued + (additions os).length := by
  induction leads with
  | nil => exact ⟨rfl, rfl⟩
  | @cons n _ _ _ rest first _ ih =>
    obtain ⟨numbers, issued⟩ := ih
    cases first with
    | called | noted | unsubscribed => exact ⟨numbers, issued⟩
    | subscribed l =>
      have more : additions (.subscribed (n.subscribe l).1 l :: rest)
          = ((n.subscribe l).1, l) :: additions rest :=
        rfl
      rw [more, List.map_cons, List.length_cons, List.range'_succ]
      exact ⟨congrArg (_ :: ·) numbers, issued.trans (by simp only [subscribe]; omega)⟩

/-- What was issued before is not issued again. -/
theorem Leads.notMem_additions {n n' : Notifier ν} {os : List (Happening ν)}
    (leads : Leads n os n') {id : ListenerId} (old : id.number ≤ n.issued)
    : id ∉ (additions os).map (·.1) := by
  intro member
  have number := List.mem_map_of_mem (f := ListenerId.number) member
  rw [List.map_map, Function.comp_def, leads.number_additions.1, List.mem_range'_1] at number
  omega

/-- The listeners that do not go stay in their order, and those that come stand behind them; by
induction on what happens.
-/
theorem Leads.listeners_eq {n n' : Notifier ν} {os : List (Happening ν)} (leads : Leads n os n')
    (numbered : n.Numbered)
    : n'.listeners
      = without (removals os) n.listeners ++ without (removals os) (additions os) := by
  induction leads with
  | nil n => simp [removals, additions]
  | @cons n _ _ _ rest first later ih =>
    have left := ih (first.numbered numbered)
    cases first with
    | called | noted => exact left
    | subscribed l =>
      rw [left, subscribe, without, List.filter_append, List.append_assoc]
      exact congrArg _ (List.filter_append ..).symm
    | unsubscribed id =>
      rw [left]
      cases found : (n.unsubscribe id).1 with
      | false =>
        have absent : id ∉ n.ids := fun member => by
          simp [(n.unsubscribe_iff id).mpr member] at found
        rw [unsubscribe, filter_ne_self absent]
        rfl
      | true =>
        have old := numbered.issued id ((n.unsubscribe_iff id).mp found)
        have new : id ∉ (additions rest).map (·.1) := later.notMem_additions old
        have gone : removals (.unsubscribed id true :: rest) = id :: removals rest := rfl
        have same : additions (.unsubscribed id true :: rest) = additions rest := rfl
        rw [gone, same, without_cons, without_cons, filter_ne_self new]
        rfl

-- --------------------------------------------------------------------------------------
-- Histories
-- --------------------------------------------------------------------------------------

/-- A call to a notifier. -/
inductive Call (ν : Type) where
  | subscribe (l : Listener ν)
  | unsubscribe (id : ListenerId)
  | emit (e : Event)
  /-- Listeners may remember things, so that they do something else about events from now on. If
  that comes about in the midst of an emission, it is as well before it, since no listener is called
  twice.
  -/
  | change (behaviour : ListenerId → Listener ν → Listener ν)

namespace Call

def perform (n : Notifier ν) : Call ν → Notifier ν
  | subscribe l => (n.subscribe l).2
  | unsubscribe id => (n.unsubscribe id).2
  | emit e => (n.emit e).1
  | change behaviour =>
    { n with listeners := n.listeners.map fun (id, l) => (id, behaviour id l) }

/-- What happens in a call, with the answers that it gives. -/
def course (n : Notifier ν) : Call ν → List (Happening ν)
  | subscribe l => [.subscribed (n.subscribe l).1 l]
  | unsubscribe id => [.unsubscribed id (n.unsubscribe id).1]
  | emit e => n.course e
  | change _ => []

end Call

/-- The notifier after some calls. -/
def after (cs : List (Call ν)) : Notifier ν := cs.foldl Call.perform empty

/-- What happens in some calls, one after the other. -/
def history (n : Notifier ν) : List (Call ν) → List (Happening ν)
  | [] => []
  | c :: rest => c.course n ++ (c.perform n).history rest

/-- A record of all that happened, by which every answer was right. -/
structure Chronicle (os : List (Happening ν)) (n : Notifier ν) : Prop where
  numbered : n.Numbered
  registered : registered os = n.ids
  issued : (additions os).map (·.1.number) = List.range' 1 n.issued
  answers : ∀ before id found rest, os = before ++ .unsubscribed id found :: rest →
    (found = true ↔ id ∈ Happening.registered before)
  distinct : (removals os).Nodup
  gone : ∀ id ∈ removals os, id ∉ n.ids ∧ id.number ≤ n.issued

namespace Chronicle

variable {os : List (Happening ν)} {n n' : Notifier ν}

theorem registered_append (os : List (Happening ν)) (o : Happening ν)
    : Happening.registered (os ++ [o]) = o.apply (Happening.registered os) := by
  simp [Happening.registered]

theorem additions_append (os : List (Happening ν)) (o : Happening ν)
    : additions (os ++ [o]) = additions os ++ o.added?.toList := by
  cases h : o.added? <;> simp [additions, h]

theorem removals_append (os : List (Happening ν)) (o : Happening ν)
    : removals (os ++ [o]) = removals os ++ o.removed?.toList := by
  cases h : o.removed? <;> simp [removals, h]

/-- An answer is the last step, or it was given before. -/
theorem answers_append {o : Happening ν} (chronicle : Chronicle os n)
    (right : ∀ id found, o = .unsubscribed id found → (found = true ↔ id ∈ n.ids))
    : ∀ before id found rest, os ++ [o] = before ++ .unsubscribed id found :: rest →
      (found = true ↔ id ∈ Happening.registered before) := by
  intro before id found rest same
  rcases List.eq_nil_or_concat rest with rfl | ⟨rest, last, rfl⟩
  · obtain ⟨rfl, last⟩ := List.append_inj' same rfl
    rw [chronicle.registered]
    exact right id found (List.cons.inj last).1
  · rw [List.concat_eq_append, ← List.cons_append, ← List.append_assoc] at same
    exact chronicle.answers before id found rest (List.append_inj' same rfl).1

theorem subscribe (chronicle : Chronicle os n) (l : Listener ν)
    : Chronicle (os ++ [.subscribed (n.subscribe l).1 l]) (n.subscribe l).2 where
  numbered := (Happens.subscribed n l).numbered chronicle.numbered
  registered := by
    rw [registered_append, chronicle.registered, ids_subscribe]
    rfl
  issued := by
    rw [additions_append, List.map_append, chronicle.issued]
    simp [Happening.added?, Notifier.subscribe, List.range'_concat, Nat.add_comm]
  answers := chronicle.answers_append nofun
  distinct := by simpa [removals_append, Happening.removed?] using chronicle.distinct
  gone := by
    intro id member
    rw [removals_append] at member
    obtain ⟨absent, issued⟩ := chronicle.gone id (by simpa [Happening.removed?] using member)
    refine ⟨?_, Nat.le_succ_of_le issued⟩
    rw [ids_subscribe, List.mem_append, not_or]
    refine ⟨absent, fun new => ?_⟩
    obtain rfl := List.mem_singleton.mp new
    exact Nat.not_succ_le_self _ issued

/-- Whoever goes was there, and does not come back under the same identity. -/
theorem unsubscribe (chronicle : Chronicle os n) (id : ListenerId)
    : Chronicle (os ++ [.unsubscribed id (n.unsubscribe id).1]) (n.unsubscribe id).2 where
  numbered := (Happens.unsubscribed n id).numbered chronicle.numbered
  registered := by
    rw [registered_append, chronicle.registered, ids_unsubscribe]
    rfl
  issued := by
    simpa [additions_append, Happening.added?, Notifier.unsubscribe] using chronicle.issued
  answers := chronicle.answers_append fun id' found same => by
    obtain ⟨rfl, rfl⟩ := Happening.unsubscribed.inj same
    exact n.unsubscribe_iff id
  distinct := by
    rw [removals_append]
    cases found : (n.unsubscribe id).1 with
    | false => simpa [Happening.removed?] using chronicle.distinct
    | true =>
      have there := (n.unsubscribe_iff id).mp found
      refine List.nodup_append.mpr ⟨chronicle.distinct, by simp [Happening.removed?], ?_⟩
      intro id' before id'' now same
      obtain rfl : id'' = id := by simpa [Happening.removed?] using now
      exact (chronicle.gone id' before).1 (same ▸ there)
  gone := by
    intro id' member
    rw [removals_append, List.mem_append] at member
    rw [ids_unsubscribe, List.mem_filter, not_and]
    rcases member with before | now
    · obtain ⟨absent, issued⟩ := chronicle.gone id' before
      exact ⟨fun there => absurd there absent, issued⟩
    · cases found : (n.unsubscribe id).1 with
      | false => simp [found, Happening.removed?] at now
      | true =>
        obtain rfl : id' = id := by simpa [found, Happening.removed?] using now
        exact ⟨by simp, chronicle.numbered.issued id' ((n.unsubscribe_iff id').mp found)⟩

theorem step {o : Happening ν} (chronicle : Chronicle os n) (happens : Happens n o n')
    : Chronicle (os ++ [o]) n' := by
  cases happens with
  | subscribed l => exact chronicle.subscribe l
  | unsubscribed id => exact chronicle.unsubscribe id
  | called | noted =>
    refine ⟨chronicle.numbered, ?_, ?_, chronicle.answers_append nofun, ?_, ?_⟩
    · rw [registered_append, ← chronicle.registered]
      rfl
    · simpa [additions_append, Happening.added?] using chronicle.issued
    · simpa [removals_append, Happening.removed?] using chronicle.distinct
    · simpa [removals_append, Happening.removed?] using chronicle.gone

/-- By induction on what happens. -/
theorem leads {more : List (Happening ν)} (chronicle : Chronicle os n)
    (leads : Leads n more n')
    : Chronicle (os ++ more) n' := by
  induction leads generalizing os with
  | nil => simpa using chronicle
  | cons first _ ih => simpa using ih (chronicle.step first)

/-- What listeners do about events does not matter. -/
theorem alike (chronicle : Chronicle os n) (alike : Alike n' n) : Chronicle os n' where
  numbered := ⟨alike.ids ▸ chronicle.numbered.ascending,
    fun id member => alike.issued ▸ chronicle.numbered.issued id (alike.ids ▸ member)⟩
  registered := chronicle.registered.trans alike.ids.symm
  issued := alike.issued ▸ chronicle.issued
  answers := chronicle.answers
  distinct := chronicle.distinct
  gone := alike.ids ▸ alike.issued ▸ chronicle.gone

theorem call (chronicle : Chronicle os n) (c : Call ν)
    : Chronicle (os ++ c.course n) (c.perform n) := by
  cases c with
  | subscribe l => exact chronicle.subscribe l
  | unsubscribe id => exact chronicle.unsubscribe id
  | emit e => exact chronicle.leads (reports_emit n e).leads
  | change behaviour =>
    have alike : Alike ((Call.change behaviour).perform n) n :=
      ⟨by simp [Call.perform, ids], rfl⟩
    simpa [Call.course] using chronicle.alike alike

/-- By induction on the calls. -/
theorem history (chronicle : Chronicle os n) (cs : List (Call ν))
    : Chronicle (os ++ n.history cs) (cs.foldl Call.perform n) := by
  induction cs generalizing os n with
  | nil => simpa [Notifier.history] using chronicle
  | cons c rest ih => simpa [Notifier.history] using ih (chronicle.call c)

end Chronicle

/-- Whatever calls are made to a notifier, and whatever its listeners do about events, an emission
calls the listeners that are registered as it begins, each once and in the order in which they came,
also those that go meanwhile, and no others; it tells what they note. Afterwards those are left that
did not go, in their order, and behind them those that came meanwhile and did not go again.
Identities are issued one after the other and never a second time; to unsubscribe a listener is
answered with true exactly if it is registered at that moment, hence no more than once.
-/
theorem dispatch_of_history (cs : List (Call ν))
    : (∀ e, calls ((after cs).course e) = (after cs).ids.map some
        ∧ notes ((after cs).course e) = ((after cs).emit e).2
        ∧ ((after cs).emit e).1.listeners
          = without (removals ((after cs).course e)) (after cs).listeners
            ++ without (removals ((after cs).course e)) (additions ((after cs).course e)))
      ∧ (after cs).ids.Pairwise (·.number < ·.number)
      ∧ registered (empty.history cs) = (after cs).ids
      ∧ (additions (empty.history cs)).map (·.1.number) = List.range' 1 (after cs).issued
      ∧ (∀ before id found rest,
        empty.history cs = before ++ .unsubscribed id found :: rest →
        (found = true ↔ id ∈ registered before))
      ∧ (removals (empty.history cs)).Nodup := by
  have start : Chronicle ([] : List (Happening ν)) empty :=
    ⟨⟨.nil, nofun⟩, rfl, rfl, by simp, .nil, nofun⟩
  have chronicle := start.history cs
  refine ⟨fun e => ?_, chronicle.numbered.ascending, chronicle.registered, chronicle.issued,
    chronicle.answers, chronicle.distinct⟩
  have reports := reports_emit (after cs) e
  refine ⟨?_, reports.noted, reports.leads.listeners_eq chronicle.numbered⟩
  rw [course, reports.names, ids, List.map_map]
  rfl

end Notifier

end

namespace Sample

open Notifier

/-- A listener that removes itself and the next one, subscribes another one and then fails. -/
def leaving : Listener String := fun _ =>
  .note "leaving" <| .unsubscribe ⟨1⟩ fun _ => .unsubscribe ⟨2⟩ fun _ =>
    .subscribe (fun _ => .note "new" .done) fun _ => .abort

/-- A listener that fails. -/
def refusing : Listener String := fun _ => .note "refusing" .abort

/-- A listener that removes the second one, and notes whether it was still there. -/
def late : Listener String := fun _ =>
  .unsubscribe ⟨2⟩ fun found => .note (if found then "found" else "missed") .done

/-- Three listeners, of which two go as they are called. -/
def audience : List (Call String) := [.subscribe leaving, .subscribe refusing, .subscribe late]

def audienceCalls : List (Call String) :=
  audience ++ [.emit (.queryStarted "late"), .unsubscribe ⟨4⟩, .unsubscribe ⟨4⟩]

/-- All three are called, also the one that was removed before its turn, and the new one is not. The
third one finds the second one gone, and who is removed twice is found once.
-/
theorem audience_dispatch
    : Happening.calls ((after audience).course (.queryStarted "late"))
        = [some ⟨1⟩, some ⟨2⟩, some ⟨3⟩]
      ∧ ((after audience).emit (.queryStarted "late")).2 = ["leaving", "refusing", "missed"]
      ∧ ((after audience).emit (.queryStarted "late")).1.ids = [⟨3⟩, ⟨4⟩]
      ∧ (empty.history audienceCalls).drop 11
        = [.unsubscribed ⟨2⟩ false, .noted "missed", .unsubscribed ⟨4⟩ true,
          .unsubscribed ⟨4⟩ false]
      ∧ ⟨2⟩ ∉ Happening.registered ((empty.history audienceCalls).take 11)
      ∧ (Happening.removals (empty.history audienceCalls)).Nodup := by
  obtain ⟨emission, -, -, -, -, -⟩ := dispatch_of_history audience
  obtain ⟨called, noted, -⟩ := emission (.queryStarted "late")
  obtain ⟨-, -, -, -, answers, once⟩ := dispatch_of_history audienceCalls
  have answer := answers ((empty.history audienceCalls).take 11) ⟨2⟩ false
    ((empty.history audienceCalls).drop 12) rfl
  exact ⟨called, noted.symm.trans rfl, rfl, rfl, fun there => Bool.noConfusion (answer.mpr there),
    once⟩

end Sample

end RuleEngine
